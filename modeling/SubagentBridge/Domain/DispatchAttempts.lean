import SubagentBridge.Domain.Contracts
import SubagentBridge.Library.Dict
import SubagentBridge.Library.Runs

/-! The tracker of dispatch attempts: a later attempt of a task supersedes the earlier ones. -/

namespace SubagentBridge.Domain

open Library

inductive DispatchStatus | initialized | active | completed | failed | superseded
  deriving DecidableEq

def DispatchStatus.value : DispatchStatus → String
  | .initialized => "INITIALIZED"
  | .active => "ACTIVE"
  | .completed => "COMPLETED"
  | .failed => "FAILED"
  | .superseded => "SUPERSEDED"

structure DispatchAttempt where
  dispatchId : String
  taskId : String
  runId : String
  attemptNumber : Nat
  treeSha : String
  policyRevision : String
  status : DispatchStatus
  deriving DecidableEq

structure DispatchIdempotencyTracker where
  activeAttempts : Dict String DispatchAttempt
  history : List DispatchAttempt
  deriving DecidableEq

namespace DispatchIdempotencyTracker

def empty : DispatchIdempotencyTracker := ⟨[], []⟩

variable (repr : String → String) (t : DispatchIdempotencyTracker)

def startDispatch (dispatchId taskId runId treeSha policyRevision : String) :
    DispatchAttempt × DispatchIdempotencyTracker :=
  let prior := t.activeAttempts.get? taskId
  let attemptNum := match prior with
    | some prior => prior.attemptNumber + 1
    | none => 1
  let history := match prior with
    | some prior =>
      if prior.status = .active then t.history ++ [{ prior with status := .superseded }]
      else t.history
    | none => t.history
  let attempt := ⟨dispatchId, taskId, runId, attemptNum, treeSha, policyRevision, .active⟩
  (attempt, ⟨t.activeAttempts.set taskId attempt, history⟩)

def validateActiveDispatch (taskId dispatchId : String) : Except Error DispatchAttempt :=
  match t.activeAttempts.get? taskId with
  | none => .error (.key ("no active dispatch for task " ++ repr taskId))
  | some active =>
    if active.dispatchId ≠ dispatchId then
      .error (.permission ("stale dispatch " ++ repr dispatchId ++ " cannot complete task " ++
        repr taskId ++ " (current active attempt: " ++ repr active.dispatchId ++ ")"))
    else if active.status ≠ .active then
      .error (.permission ("dispatch " ++ repr dispatchId ++ " is already " ++ active.status.value))
    else .ok active

def completeDispatch (taskId dispatchId : String) (success : Bool) :
    Result DispatchIdempotencyTracker DispatchAttempt :=
  match t.validateActiveDispatch repr taskId dispatchId with
  | .error e => (.error e, t)
  | .ok active =>
    let newStatus := if success then .completed else .failed
    let completed := { active with status := newStatus }
    (.ok completed, ⟨t.activeAttempts.set taskId completed, t.history ++ [completed]⟩)

variable {repr} {t}

theorem validateActiveDispatch_ok {taskId dispatchId : String} {a : DispatchAttempt} :
    t.validateActiveDispatch repr taskId dispatchId = .ok a ↔
      t.activeAttempts.get? taskId = some a ∧ a.dispatchId = dispatchId ∧ a.status = .active := by
  rw [validateActiveDispatch]
  cases h : t.activeAttempts.get? taskId with
  | none => simp
  | some active =>
    by_cases hid : active.dispatchId = dispatchId
    · by_cases hst : active.status = .active
      · simp only [hid, hst, ne_eq, not_true_eq_false, if_false, Except.ok.injEq, Option.some.injEq]
        constructor
        · rintro rfl
          exact ⟨rfl, hid, hst⟩
        · exact fun ha => ha.1
      · simp only [hid, hst, ne_eq, not_true_eq_false, not_false_eq_true, if_false, if_true,
          reduceCtorEq, Option.some.injEq, false_iff]
        rintro ⟨rfl, -, ha⟩
        exact hst ha
    · simp only [hid, ne_eq, not_false_eq_true, if_true, reduceCtorEq, Option.some.injEq, false_iff]
      rintro ⟨rfl, ha, -⟩
      exact hid ha

end DispatchIdempotencyTracker

def DispatchAttempt.opened (a : DispatchAttempt) : DispatchAttempt := { a with status := .active }

@[simp] theorem DispatchAttempt.opened_status (a : DispatchAttempt) (st : DispatchStatus) :
    DispatchAttempt.opened { a with status := st } = a.opened := rfl

theorem DispatchAttempt.opened_active {a : DispatchAttempt} (h : a.status = .active) :
    a.opened = a := by
  rw [opened, ← h]

namespace DispatchIdempotencyTracker

/-! ## Runs -/

inductive Request
  | startDispatch (dispatchId taskId runId treeSha policyRevision : String)
  | completeDispatch (taskId dispatchId : String) (success : Bool)

def Request.startId : Request → Option String
  | .startDispatch dispatchId _ _ _ _ => some dispatchId
  | .completeDispatch _ _ _ => none

/-- The tracker, and the attempts that it has returned from `start_dispatch`. -/
structure State where
  tracker : DispatchIdempotencyTracker
  started : List DispatchAttempt
  deriving DecidableEq

def initial : State := ⟨empty, []⟩

variable (repr : String → String)

def step (s : State) : Request → Option State
  | .startDispatch dispatchId taskId runId treeSha policyRevision =>
    let p := s.tracker.startDispatch dispatchId taskId runId treeSha policyRevision
    some ⟨p.2, s.started ++ [p.1]⟩
  | .completeDispatch taskId dispatchId success =>
    some { s with tracker := (s.tracker.completeDispatch repr taskId dispatchId success).2 }

def State.attempts (s : State) (task : String) : List DispatchAttempt :=
  s.started.filter (·.taskId = task)

def State.entries (s : State) (a : DispatchAttempt) : Nat :=
  s.tracker.history.countP (·.dispatchId = a.dispatchId)

def State.status (s : State) (a : DispatchAttempt) : DispatchStatus :=
  ((s.tracker.history.find? (·.dispatchId = a.dispatchId)).map (·.status)).getD .active

def openAttempt (t : DispatchIdempotencyTracker) (task : String) : List DispatchAttempt :=
  ((t.activeAttempts.get? task).filter (·.status = .active)).toList

structure Ordered (s : State) : Prop where
  closed : ∀ task, (s.tracker.history.filter (·.taskId = task)).map (·.opened) ++
    s.tracker.openAttempt task = s.attempts task
  latest : ∀ task, (s.tracker.activeAttempts.get? task).map (·.opened) = (s.attempts task).getLast?
  numbered : ∀ task,
    (s.attempts task).map (·.attemptNumber) = List.range' 1 (s.attempts task).length
  recorded : ∀ task p, s.tracker.activeAttempts.get? task = some p →
    p.status = .active ∨ p ∈ s.tracker.history
  terminal : ∀ h ∈ s.tracker.history,
    h.status = .completed ∨ h.status = .failed ∨ h.status = .superseded

variable {repr} {s s' : State} {q : Request} {ls : List Request}

theorem ordered_initial : Ordered initial where
  closed _ := rfl
  latest _ := rfl
  numbered _ := rfl
  recorded := by simp [initial, empty]
  terminal := by simp [initial, empty]

theorem attempts_snoc (s : State) (t : DispatchIdempotencyTracker) (a : DispatchAttempt)
    (task : String) : State.attempts ⟨t, s.started ++ [a]⟩ task =
      s.attempts task ++ if a.taskId = task then [a] else [] := by
  by_cases h : a.taskId = task <;> simp [State.attempts, h]

theorem Ordered.last (ho : Ordered s) {task : String} {p : DispatchAttempt}
    (hp : s.tracker.activeAttempts.get? task = some p) :
    p.taskId = task ∧ p.attemptNumber = (s.attempts task).length ∧
      (s.attempts task).getLast? = some p.opened := by
  have hlast := ho.latest task
  rw [hp, Option.map_some] at hlast
  have hmem := List.mem_filter.mp (List.mem_of_getLast? hlast.symm)
  refine ⟨of_decide_eq_true hmem.2, ?_, hlast.symm⟩
  have hnum := congrArg List.getLast? (ho.numbered task)
  rw [List.getLast?_map, ← hlast, List.getLast?_range'] at hnum
  have hpos : (s.attempts task).length ≠ 0 :=
    fun h => by rw [List.length_eq_zero_iff.mp h] at hlast; cases hlast
  simp only [Option.map_some, if_neg hpos, Option.some.injEq] at hnum
  rw [show p.opened.attemptNumber = p.attemptNumber from rfl] at hnum
  omega

theorem openAttempt_of_set {t : DispatchIdempotencyTracker} {a : DispatchAttempt}
    {h : List DispatchAttempt} {taskId : String} (task : String) :
    openAttempt ⟨t.activeAttempts.set taskId a, h⟩ task =
      if taskId = task then if a.status = .active then [a] else [] else t.openAttempt task := by
  rw [openAttempt, Dict.get?_set]
  split
  · by_cases ha : a.status = .active <;> simp [ha, Option.filter]
  · rfl

theorem startDispatch_history (t : DispatchIdempotencyTracker)
    (dispatchId taskId runId treeSha policyRevision : String) :
    (t.startDispatch dispatchId taskId runId treeSha policyRevision).2.history =
      t.history ++ (t.openAttempt taskId).map ({ · with status := .superseded }) := by
  simp only [startDispatch, openAttempt]
  cases t.activeAttempts.get? taskId with
  | none => simp
  | some p => by_cases hp : p.status = .active <;> simp [hp, Option.filter]

theorem Ordered.mem_openAttempt (ho : Ordered s) {taskId : String} {p : DispatchAttempt}
    (hp : p ∈ s.tracker.openAttempt taskId) :
    s.tracker.activeAttempts.get? taskId = some p ∧ p.status = .active ∧ p.taskId = taskId := by
  rw [openAttempt, Option.mem_toList, Option.filter_eq_some_iff] at hp
  exact ⟨hp.1, of_decide_eq_true hp.2, (ho.last hp.1).1⟩

theorem Ordered.superseded (ho : Ordered s) (taskId task : String) :
    (((s.tracker.openAttempt taskId).map ({ · with status := .superseded })).filter
      (·.taskId = task)).map (·.opened) =
        if taskId = task then s.tracker.openAttempt taskId else [] := by
  cases h : s.tracker.openAttempt taskId with
  | nil => simp
  | cons p ps =>
    obtain ⟨hp, hact, htask⟩ := ho.mem_openAttempt (h ▸ List.mem_cons_self)
    have hps : ps = [] := by
      rw [openAttempt, hp] at h
      simp only [Option.filter, hact, decide_true, if_true, Option.toList_some,
        List.cons.injEq] at h
      exact h.2.symm
    subst hps
    by_cases ht : taskId = task
    · subst ht
      rw [List.map_singleton, List.filter_eq_self.mpr (by simpa using htask), List.map_singleton,
        if_pos rfl, DispatchAttempt.opened_status, DispatchAttempt.opened_active hact]
    · simp [htask, ht]

theorem Ordered.next_number (ho : Ordered s)
    (dispatchId taskId runId treeSha policyRevision : String) :
    (s.tracker.startDispatch dispatchId taskId runId treeSha policyRevision).1.attemptNumber =
      (s.attempts taskId).length + 1 := by
  simp only [startDispatch]
  cases hp : s.tracker.activeAttempts.get? taskId with
  | none =>
    have hlast := ho.latest taskId
    rw [hp, Option.map_none, eq_comm, List.getLast?_eq_none_iff] at hlast
    simp [hlast]
  | some p => exact congrArg (· + 1) (ho.last hp).2.1

theorem ordered_start (ho : Ordered s) (dispatchId taskId runId treeSha policyRevision : String)
    (hs : step repr s (.startDispatch dispatchId taskId runId treeSha policyRevision) = some s') :
    Ordered s' := by
  cases hs
  have hnum := ho.next_number dispatchId taskId runId treeSha policyRevision
  have hhist := startDispatch_history s.tracker dispatchId taskId runId treeSha policyRevision
  have hopen (task : String) : openAttempt
      (s.tracker.startDispatch dispatchId taskId runId treeSha policyRevision).2 task =
        if taskId = task then
          [(s.tracker.startDispatch dispatchId taskId runId treeSha policyRevision).1]
        else s.tracker.openAttempt task := openAttempt_of_set task
  have hmap (task : String) :
      (s.tracker.startDispatch dispatchId taskId runId treeSha policyRevision).2.activeAttempts.get?
        task = if taskId = task then
          some (s.tracker.startDispatch dispatchId taskId runId treeSha policyRevision).1
        else s.tracker.activeAttempts.get? task := Dict.get?_set ..
  have htask : (s.tracker.startDispatch dispatchId taskId runId treeSha policyRevision).1.taskId =
      taskId := rfl
  have hst : (s.tracker.startDispatch dispatchId taskId runId treeSha policyRevision).1.opened =
      (s.tracker.startDispatch dispatchId taskId runId treeSha policyRevision).1 := rfl
  have hact : (s.tracker.startDispatch dispatchId taskId runId treeSha policyRevision).1.status =
      .active := rfl
  generalize s.tracker.startDispatch dispatchId taskId runId treeSha policyRevision = r at *
  obtain ⟨a, t'⟩ := r
  dsimp only at hnum hhist hopen hmap htask hst hact
  constructor
  · intro task
    have hclosed := ho.closed task
    rw [attempts_snoc, htask]
    simp only [hhist, hopen, List.filter_append, List.map_append, ho.superseded]
    rw [← hclosed]
    by_cases ht : taskId = task <;> simp [ht]
  · intro task
    rw [attempts_snoc, htask, hmap]
    split
    · rw [List.getLast?_concat, Option.map_some, hst]
    · simpa using ho.latest task
  · intro task
    have hold := ho.numbered task
    rw [attempts_snoc, htask]
    split
    next ht =>
      subst ht
      rw [List.map_append, List.length_append, List.length_singleton, List.range'_concat, hold]
      simp only [List.map_singleton, hnum]
      rw [Nat.one_mul, Nat.add_comm 1]
    next => simpa using hold
  · intro task p hp
    rw [hmap] at hp
    split at hp
    · exact .inl ((Option.some.inj hp) ▸ hact)
    · exact (ho.recorded task p hp).imp_right fun hp => hhist ▸ List.mem_append_left _ hp
  · intro h hh
    rw [hhist] at hh
    rcases List.mem_append.mp hh with hh | hh
    · exact ho.terminal h hh
    · obtain ⟨p, -, rfl⟩ := List.mem_map.mp hh
      exact .inr (.inr rfl)

/-- All that `complete_dispatch` does: it refuses, or closes the open attempt of the task. -/
inductive Completes (repr : String → String) (t : DispatchIdempotencyTracker)
    (taskId dispatchId : String) (success : Bool) :
    Result DispatchIdempotencyTracker DispatchAttempt → Prop
  | refuses (e : Error) : t.validateActiveDispatch repr taskId dispatchId = .error e →
      Completes repr t taskId dispatchId success (.error e, t)
  | closes (a b : DispatchAttempt) : t.activeAttempts.get? taskId = some a →
      a.dispatchId = dispatchId → a.status = .active →
      b = { a with status := if success then .completed else .failed } →
      Completes repr t taskId dispatchId success
        (.ok b, ⟨t.activeAttempts.set taskId b, t.history ++ [b]⟩)

theorem completeDispatch_cases (t : DispatchIdempotencyTracker) (taskId dispatchId : String)
    (success : Bool) : Completes repr t taskId dispatchId success
      (t.completeDispatch repr taskId dispatchId success) := by
  rw [completeDispatch]
  cases h : t.validateActiveDispatch repr taskId dispatchId with
  | error e => exact .refuses e h
  | ok a =>
    obtain ⟨hget, hid, hact⟩ := validateActiveDispatch_ok.mp h
    exact .closes a _ hget hid hact rfl

theorem ordered_complete (ho : Ordered s) (taskId dispatchId : String) (success : Bool)
    (hs : step repr s (.completeDispatch taskId dispatchId success) = some s') :
    Ordered s' := by
  cases hs
  have hcases : Completes repr s.tracker taskId dispatchId success _ :=
    completeDispatch_cases s.tracker taskId dispatchId success
  generalize s.tracker.completeDispatch repr taskId dispatchId success = r at hcases
  cases hcases with
  | refuses => exact ho
  | closes a b hget hid hact hb =>
    have htask := (ho.last hget).1
    have hopened :
      b.opened = a := by rw [hb, DispatchAttempt.opened_status, DispatchAttempt.opened_active hact]
    have hbtask : b.taskId = taskId := by rw [hb, ← htask]
    have hclosed : b.status ≠ .active := by
      rw [hb]
      cases success <;> simp
    constructor
    · intro task
      have hold := ho.closed task
      simp only [openAttempt_of_set, List.filter_append, List.map_append]
      change _ = s.attempts task
      rw [← hold]
      by_cases ht : taskId = task
      · subst ht
        simp [hbtask, hopened, hclosed, openAttempt, hget, hact, Option.filter]
      · simp [hbtask, ht]
    · intro task
      have hold := ho.latest task
      simp only [Dict.get?_set]
      split
      next ht =>
        subst ht
        rw [hget] at hold
        rw [Option.map_some, hopened, ← DispatchAttempt.opened_active hact]
        exact hold
      next => exact hold
    · exact ho.numbered
    · intro task p hp
      rw [Dict.get?_set] at hp
      split at hp
      · exact .inr (List.mem_append_right _ (by simpa using (Option.some.inj hp).symm))
      · exact (ho.recorded task p hp).imp_right (List.mem_append_left _)
    · intro h hh
      rcases List.mem_append.mp hh with hh | hh
      · exact ho.terminal h hh
      · rw [List.mem_singleton.mp hh, hb]
        cases success
        · exact .inr (.inl rfl)
        · exact .inl rfl

theorem ordered_run (h : Library.Run (step repr) initial ls s) : Ordered s :=
  h.invariant ordered_initial fun _ q _ ho _ hs => by
    cases q with
    | startDispatch => exact ordered_start ho _ _ _ _ _ hs
    | completeDispatch => exact ordered_complete ho _ _ _ hs

/-! ## Distinct dispatch ids -/

theorem started_run (h : Library.Run (step repr) initial ls s) :
    s.started.map (·.dispatchId) = ls.filterMap Request.startId := by
  induction h with
  | refl => rfl
  | @tail s s' ls q _ _ hs ih =>
    rw [List.filterMap_append, ← ih]
    cases q with
    | startDispatch => cases hs; simp [Request.startId, startDispatch]
    | completeDispatch => cases hs; simp [Request.startId]

section Distinct

variable {a : DispatchAttempt} {task : String}

theorem mem_attempts : a ∈ s.attempts task ↔ a ∈ s.started ∧ a.taskId = task := by
  simp [State.attempts]

theorem Ordered.opened_started (ho : Ordered s) {h : DispatchAttempt}
    (hh : h ∈ s.tracker.history) : h.opened ∈ s.attempts h.taskId := by
  rw [← ho.closed]
  exact List.mem_append_left _ (List.mem_map_of_mem (List.mem_filter.mpr ⟨hh, decide_eq_true rfl⟩))

theorem eq_of_dispatchId (hn : (s.started.map (·.dispatchId)).Nodup) {b : DispatchAttempt}
    (ha : a ∈ s.started) (hb : b ∈ s.started) (h : a.dispatchId = b.dispatchId) : a = b :=
  List.inj_on_of_nodup_map hn ha hb h

theorem Ordered.entries (ho : Ordered s) (hn : (s.started.map (·.dispatchId)).Nodup)
    (ha : a ∈ s.attempts task) :
    s.entries a + (s.tracker.openAttempt task).countP (·.dispatchId = a.dispatchId) = 1 := by
  obtain ⟨hstarted, htask⟩ := mem_attempts.mp ha
  have hentries : s.entries a = ((s.tracker.history.filter (·.taskId = task)).map (·.opened)).countP
      (·.dispatchId = a.dispatchId) := by
    rw [State.entries, List.countP_map, List.countP_filter]
    refine List.countP_congr fun h hh => ?_
    have hmem := ho.opened_started hh
    simp only [decide_eq_true_eq, Function.comp_apply, Bool.and_eq_true]
    constructor
    · intro hid
      have heq := eq_of_dispatchId hn (mem_attempts.mp hmem).1 hstarted hid
      exact ⟨hid, (congrArg (·.taskId) heq).trans htask⟩
    · exact fun h => h.1
  rw [hentries, ← List.countP_append, ho.closed]
  have hcount : (s.attempts task).countP (·.dispatchId = a.dispatchId) =
      ((s.attempts task).map (·.dispatchId)).count a.dispatchId := by
    rw [List.count, List.countP_map]
    exact List.countP_congr fun b _ => by simp
  rw [hcount]
  exact List.count_eq_one_of_mem (hn.sublist (List.filter_sublist.map _)) (List.mem_map_of_mem ha)

theorem Ordered.entries_closed (ho : Ordered s) (hn : (s.started.map (·.dispatchId)).Nodup)
    (ha : a ∈ s.attempts task) (hlast : (s.attempts task).getLast? ≠ some a) :
    s.entries a = 1 := by
  have hone := ho.entries hn ha
  have hopen : (s.tracker.openAttempt task).countP (·.dispatchId = a.dispatchId) = 0 := by
    rw [List.countP_eq_zero]
    intro p hp hid
    obtain ⟨hget, hact, htask⟩ := ho.mem_openAttempt hp
    have hp' := (ho.last hget).2.2
    rw [DispatchAttempt.opened_active hact] at hp'
    have hmem := mem_attempts.mp (List.mem_of_getLast? hp')
    have heq := eq_of_dispatchId hn hmem.1 (mem_attempts.mp ha).1 (of_decide_eq_true hid)
    exact hlast (heq ▸ hp')
  omega

theorem Ordered.status_active (ho : Ordered s) :
    s.status a = .active ↔ s.entries a = 0 := by
  rw [State.status, State.entries, List.countP_eq_zero]
  cases hf : s.tracker.history.find? (·.dispatchId = a.dispatchId) with
  | none => simpa using List.find?_eq_none.mp hf
  | some h =>
    have hmem := List.mem_of_find?_eq_some hf
    have hid := List.find?_some hf
    simp only [Option.map_some, Option.getD_some]
    refine iff_of_false (fun hact => ?_) fun hall => hall h hmem hid
    rcases ho.terminal h hmem with hst | hst | hst <;> rw [hact] at hst <;> cases hst

theorem Ordered.status_entry (ho : Ordered s) (hn : (s.started.map (·.dispatchId)).Nodup)
    {h : DispatchAttempt} (hh : h ∈ s.tracker.history) : s.status h.opened = h.status := by
  have hone : s.entries h.opened ≤ 1 := by
    have := ho.entries hn (ho.opened_started hh)
    omega
  rw [State.status]
  cases hf : s.tracker.history.find? (·.dispatchId = h.opened.dispatchId) with
  | none => exact absurd (decide_eq_true rfl) (List.find?_eq_none.mp hf h hh)
  | some h' =>
    have hmem : ∀ x ∈ [h, h'], x ∈ s.tracker.history.filter
        (·.dispatchId = h.opened.dispatchId) := by
      simp only [List.mem_cons, List.not_mem_nil, or_false, forall_eq_or_imp, forall_eq,
        List.mem_filter, decide_eq_true_eq]
      exact ⟨⟨hh, rfl⟩, List.mem_of_find?_eq_some hf, by simpa using List.find?_some hf⟩
    rw [State.entries, List.countP_eq_length_filter] at hone
    have heq : ∀ es : List DispatchAttempt, es.length ≤ 1 → (∀ x ∈ [h, h'], x ∈ es) → h' = h := by
      intro es hlen hes
      obtain ⟨e, rfl⟩ := List.length_eq_one_iff.mp
        (le_antisymm hlen (List.length_pos_of_mem (hes h List.mem_cons_self)))
      rw [List.mem_singleton.mp (hes h List.mem_cons_self),
        List.mem_singleton.mp (hes h' (List.mem_cons_of_mem _ List.mem_cons_self))]
    rw [heq _ hone hmem]
    rfl

theorem Ordered.current (ho : Ordered s) (hn : (s.started.map (·.dispatchId)).Nodup)
    (task : String) :
    s.tracker.activeAttempts.get? task =
      (s.attempts task).getLast?.map fun a => { a with status := s.status a } := by
  cases hget : s.tracker.activeAttempts.get? task with
  | none =>
    have hlast := ho.latest task
    rw [hget, Option.map_none] at hlast
    rw [← hlast, Option.map_none]
  | some p =>
    obtain ⟨htask, -, hlast⟩ := ho.last hget
    have hmem := List.mem_of_getLast? hlast
    have hstatus : s.status p.opened = p.status := by
      rcases ho.recorded task p hget with hact | hp
      · rw [hact, ho.status_active]
        have hopen : 0 < (s.tracker.openAttempt task).countP
            (·.dispatchId = p.opened.dispatchId) := by
          rw [List.countP_pos_iff]
          exact ⟨p, by simp [openAttempt, hget, hact, Option.filter], decide_eq_true rfl⟩
        have hone := ho.entries hn hmem
        omega
      · exact ho.status_entry hn hp
    rw [hlast, Option.map_some, hstatus]
    rfl

end Distinct

/-- The attempts of each task are numbered in the order in which they are started, only the
latest can be open or be completed, and every attempt ends once. -/
structure Linear (repr : String → String) (s : State) : Prop where
  numbered : ∀ task,
    (s.attempts task).map (·.attemptNumber) = List.range' 1 (s.attempts task).length
  active : ∀ task, ∀ a ∈ s.attempts task, s.status a = .active →
    (s.attempts task).getLast? = some a
  current : ∀ task, s.tracker.activeAttempts.get? task =
    (s.attempts task).getLast?.map fun a => { a with status := s.status a }
  completes : ∀ task dispatchId success b,
    (s.tracker.completeDispatch repr task dispatchId success).1 = .ok b →
      ∃ a, (s.attempts task).getLast? = some a ∧ a.dispatchId = dispatchId ∧
        s.status a = .active ∧ b = { a with status := if success then .completed else .failed }
  refuses : ∀ task, ∀ a ∈ s.attempts task, (s.attempts task).getLast? ≠ some a → ∀ success,
    ∃ e, s.tracker.completeDispatch repr task a.dispatchId success = (.error e, s.tracker)
  terminal : ∀ h ∈ s.tracker.history, h.opened ∈ s.started ∧
    (h.status = .completed ∨ h.status = .failed ∨ h.status = .superseded)
  once : ∀ a ∈ s.started, s.entries a ≤ 1
  ended : ∀ task, ∀ a ∈ s.attempts task, (s.attempts task).getLast? ≠ some a → s.entries a = 1

theorem dispatches_linear (h : Library.Run (step repr) initial ls s)
    (hdistinct : (ls.filterMap Request.startId).Nodup) : Linear repr s := by
  have ho := ordered_run h
  have hn : (s.started.map (·.dispatchId)).Nodup := started_run h ▸ hdistinct
  have hlatest {task : String} {a : DispatchAttempt}
    (ha : s.tracker.activeAttempts.get? task = some a)
      (hact : a.status = .active) : (s.attempts task).getLast? = some a := by
    rw [(ho.last ha).2.2, DispatchAttempt.opened_active hact]
  constructor
  · exact ho.numbered
  · intro task a ha hact
    by_contra hlast
    have hzero := ho.status_active.mp hact
    have hone := ho.entries_closed hn ha hlast
    omega
  · exact ho.current hn
  · intro task dispatchId success b hb
    have hcases : Completes repr s.tracker task dispatchId success _ :=
      completeDispatch_cases s.tracker task dispatchId success
    generalize s.tracker.completeDispatch repr task dispatchId success = r at hb hcases
    cases hcases with
    | refuses => cases hb
    | closes a b hget hid hact hb' =>
      cases hb
      have hlast := hlatest hget hact
      have hcur := ho.current hn task
      rw [hget, hlast, Option.map_some, Option.some.injEq] at hcur
      exact ⟨a, hlast, hid, (congrArg (·.status) hcur).symm.trans hact, hb'⟩
  · intro task a ha hlast success
    have hcases : Completes repr s.tracker task a.dispatchId success _ :=
      completeDispatch_cases s.tracker task a.dispatchId success
    generalize s.tracker.completeDispatch repr task a.dispatchId success = r at hcases
    cases hcases with
    | refuses e => exact ⟨e, rfl⟩
    | closes b _ hget hid hact =>
      have hb := hlatest hget hact
      have hmem := mem_attempts.mp (List.mem_of_getLast? hb)
      exact absurd (eq_of_dispatchId hn hmem.1 (mem_attempts.mp ha).1 hid ▸ hb) hlast
  · exact fun h hh => ⟨(mem_attempts.mp (ho.opened_started hh)).1, ho.terminal h hh⟩
  · intro a ha
    have hone := ho.entries hn (mem_attempts.mpr ⟨ha, rfl⟩)
    omega
  · exact fun task a ha hlast => ho.entries_closed hn ha hlast

/-- A task whose first attempt is superseded and whose second one fails, beside another task. -/
def retried : List Request :=
  [.startDispatch "d1" "A" "run" "t1" "policy", .startDispatch "d2" "B" "run" "t1" "policy",
    .startDispatch "d3" "A" "run" "t2" "policy", .completeDispatch "A" "d1" true,
    .completeDispatch "A" "d3" false, .startDispatch "d4" "A" "run" "t2" "policy"]

theorem dispatches_linear_retried :
    ∃ s, Library.Run (step id) initial retried s ∧ (s.attempts "A").length = 3 ∧
      s.tracker.history.map (·.status) = [.superseded, .failed] ∧ Linear id s :=
  ⟨_, run_exec retried rfl, by decide, by decide,
    dispatches_linear (run_exec retried rfl) (by decide)⟩

end DispatchIdempotencyTracker

end SubagentBridge.Domain
