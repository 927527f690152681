import SubagentBridge.Recovery.Discipline

/-! Every procedure of the supervisors keeps to the discipline. -/

namespace SubagentBridge.Supervisor

open Library Domain TeamStore

variable {F : Type} {B : Builtins F}

/-! ## Parts that no item shows in -/

section Parts

theorem quiet_perform (o : Op F) (ho : Quiet o) : (perform o).Only Quiet :=
  (Proc.only_op (S := sig F) (A := Quiet) o).mpr ho

theorem looks_perform (o : Op F) (ho : Looks o) : (perform o).Only Looks :=
  (Proc.only_op (S := sig F) (A := Looks) o).mpr ho

theorem quiet_of_looks {α : Type} {p : Call F α} (hp : p.Only Looks) : p.Only Quiet :=
  hp.mono fun _ ho => ho.1

theorem found_looks (path : Option PurePath) : (found (F := F) path).Only Looks := by
  cases path with
  | none => trivial
  | some path => exact Proc.only_op_bind ⟨rfl, rfl⟩ fun _ => trivial

theorem inspects_perform (o : Op F) (ho : Inspects o) : (perform o).Only Inspects :=
  (Proc.only_op (S := sig F) (A := Inspects) o).mpr ho

theorem Inspects.quiet {o : Op F} (ho : Inspects o) : Quiet o := by
  cases o <;> first | rfl | cases ho

theorem quiet_of_inspects {α : Type} {p : Call F α} (hp : p.Only Inspects) : p.Only Quiet :=
  hp.mono fun _ ho => ho.quiet

theorem consults_perform (o : Op F) (ho : Consults o) : (perform o).Only Consults :=
  (Proc.only_op (S := sig F) (A := Consults) o).mpr ho

theorem Consults.quiet {o : Op F} (ho : Consults o) : Quiet o := by
  cases o <;> first | rfl | cases ho

theorem quiet_of_consults {α : Type} {p : Call F α} (hp : p.Only Consults) : p.Only Quiet :=
  hp.mono fun _ ho => ho.quiet

theorem found_inspects (path : Option PurePath) : (found (F := F) path).Only Inspects := by
  cases path with
  | none => trivial
  | some path => exact Proc.only_op_bind rfl fun _ => trivial

theorem artifactBase_looks (wt : Option (WorktreeAssignment F)) (worker : AgentSession F) :
    (artifactBase wt worker).Only Looks := by
  refine (found_looks _).bind fun path => ?_
  cases path with
  | none => exact found_looks _
  | some path => trivial

theorem checkArtifactPath_looks (baseDir resolved : PurePath) (art : String) :
    (checkArtifactPath B baseDir resolved art).Only Looks := by
  simp only [checkArtifactPath, Proc.bind_eq]
  refine Proc.only_op_bind ⟨rfl, rfl⟩ fun linked => ?_
  refine Proc.Only.bind (by simp) fun _ => ?_
  refine Proc.Only.bind (Proc.only_forEach (fun cur => ?_) _) fun _ => ?_
  · exact Proc.only_op_bind ⟨rfl, rfl⟩ fun linked => by simp
  · exact Proc.only_op_bind ⟨rfl, rfl⟩ fun artPath => by simp

theorem sessionOf_inspects (workerId : String) : (sessionOf B workerId).Only Inspects := by
  simp only [sessionOf, Proc.bind_eq]
  refine Proc.only_op_bind rfl fun session => ?_
  cases session <;> trivial

theorem worktreeDir_inspects (wt : Option (WorktreeAssignment F)) :
    (worktreeDir wt).Only Inspects := by
  cases wt with
  | none => trivial
  | some wt =>
    refine Proc.only_op_bind rfl fun there => ?_
    exact (Proc.only_and (inspects_perform _ rfl)).bind fun _ => trivial

theorem resumeWorkerFromCheckpoint_quiet (workerId : String) (controller : Bool) :
    (resumeWorkerFromCheckpoint B workerId controller).Only Quiet := by
  simp only [resumeWorkerFromCheckpoint, Proc.bind_eq, Proc.pure_eq]
  refine Proc.only_op_bind rfl fun session => ?_
  cases session with
  | none => trivial
  | some session =>
    refine Proc.only_op_bind rfl fun latestCp => ?_
    refine Proc.only_op_bind rfl fun wt => ?_
    refine (quiet_of_inspects (worktreeDir_inspects wt)).bind fun worktreePath => ?_
    split
    · refine Proc.only_op_bind rfl fun record => ?_
      refine Proc.only_op_bind rfl fun updatedAt => ?_
      exact Proc.only_op_bind rfl fun _ => trivial
    · trivial

theorem attachWorker_quiet (workerId : String) : (attachWorker B workerId).Only Quiet := by
  simp only [attachWorker, Proc.bind_eq]
  refine Proc.only_op_bind rfl fun dispatchable => ?_
  split
  · exact (quiet_of_inspects (sessionOf_inspects workerId)).bind fun _ => trivial
  · refine Proc.only_op_bind rfl fun attached => ?_
    split
    · refine Proc.only_op_bind rfl fun safe => ?_
      split
      · exact (quiet_of_inspects (sessionOf_inspects workerId)).bind fun _ => trivial
      · trivial
    · exact (resumeWorkerFromCheckpoint_quiet workerId true).bind fun _ => trivial

theorem worktreeOf_inspects (workerId : String) (session : AgentSession F) :
    (worktreeOf workerId session).Only Inspects := by
  simp only [worktreeOf, Proc.bind_eq]
  refine Proc.only_op_bind rfl fun wt => ?_
  cases wt with
  | none => trivial
  | some wt => exact Proc.only_op_bind rfl fun _ => trivial

theorem commitOf_inspects (worktreePath : Option String) :
    (commitOf (F := F) worktreePath).Only Inspects := by
  refine (found_inspects _).bind fun path => ?_
  cases path with
  | none => trivial
  | some path => exact inspects_perform _ rfl

theorem joined_inspects (path : PurePath) (name : Json F) : (joined path name).Only Inspects := by
  rw [joined]
  split <;> trivial

theorem hasContent_inspects (path : PurePath) (artifact : Json F) :
    (hasContent path artifact).Only Inspects := by
  refine (joined_inspects path artifact).bind fun file => Proc.only_op_bind rfl fun found => ?_
  split
  · exact Proc.only_op_bind rfl fun _ => trivial
  · trivial

theorem iterable_inspects (v : Json F) : (iterable v).Only Inspects := by
  rw [iterable]
  split <;> trivial

theorem missingArtifact_inspects (path : PurePath) (arts : List (Json F)) :
    (missingArtifact path arts).Only Inspects := by
  induction arts with
  | nil => trivial
  | cons art arts ih =>
    refine (hasContent_inspects path art).bind fun there => ?_
    split
    · exact ih
    · trivial

theorem needsApproval_consults (workerId taskId : String) (command : List String) (path : String)
    (action : Option ApprovalAction) :
    (needsApproval (F := F) workerId taskId command path action).Only Consults := by
  cases action with
  | none => trivial
  | some action =>
    simp only [needsApproval, Proc.bind_eq]
    split
    · trivial
    · refine Proc.only_op_bind rfl fun fits => ?_
      split
      · split
        · exact consults_perform _ rfl
        · trivial
      · trivial

theorem isOrphan_quiet (item : Option (QueueItem F)) : (isOrphan item).Only Quiet := by
  cases item with
  | none => trivial
  | some item =>
    refine Proc.only_op_bind rfl fun alive => ?_
    split
    · exact Proc.only_op_bind rfl fun _ => trivial
    · trivial

variable [FloatInt F]

theorem checkArtifactHash_looks (baseDir : PurePath) (declared : Dict String (Json F))
    (art : String) : (checkArtifactHash B baseDir declared art).Only Looks := by
  simp only [checkArtifactHash, Proc.bind_eq]
  refine Proc.Only.bind (by simp) fun _ => ?_
  split
  · trivial
  · refine Proc.only_op_bind ⟨rfl, rfl⟩ fun artPath => ?_
    refine Proc.only_op_bind ⟨rfl, rfl⟩ fun there => ?_
    refine (Proc.only_and (looks_perform _ ⟨rfl, rfl⟩)).bind fun file => ?_
    exact Proc.Only.bind (by simp) fun _ => Proc.only_op_bind ⟨rfl, rfl⟩ fun _ => by simp

theorem checkArtifacts_looks (evidence : HandoffEvidence F) (worker : AgentSession F) :
    (checkArtifacts B evidence worker).Only Looks := by
  simp only [checkArtifacts, Proc.bind_eq]
  refine Proc.only_op_bind ⟨rfl, rfl⟩ fun wt => (artifactBase_looks wt worker).bind fun base => ?_
  cases base with
  | none => trivial
  | some baseDir =>
    refine Proc.only_op_bind ⟨rfl, rfl⟩ fun linked => Proc.Only.bind (by simp) fun _ => ?_
    refine Proc.only_op_bind ⟨rfl, rfl⟩ fun resolved => ?_
    refine (Proc.only_forEach (checkArtifactPath_looks baseDir resolved) _).bind fun _ => ?_
    split
    · trivial
    · exact Proc.only_forEach (checkArtifactHash_looks baseDir _) _

theorem leftArtifact_inspects (path : PurePath) (step : Dict String (Json F)) :
    (leftArtifact path step).Only Inspects := by
  rw [leftArtifact]
  split
  · exact (joined_inspects path _).bind fun _ => inspects_perform _ rfl
  · trivial

theorem anyEvidence_inspects (path : PurePath) (steps : List (Dict String (Json F))) :
    (anyEvidence path steps).Only Inspects := by
  induction steps with
  | nil => trivial
  | cons step steps ih =>
    refine (leftArtifact_inspects path step).bind fun there => ?_
    split
    · trivial
    · exact ih

theorem missingEvidence_inspects (R : Resumption F) (expected : Json F)
    (steps : List (Dict String (Json F))) : (missingEvidence R expected steps).Only Inspects := by
  rw [missingEvidence]
  split
  · exact (iterable_inspects expected).bind fun arts => missingArtifact_inspects _ arts
  · trivial
  · split
    · trivial
    · exact (anyEvidence_inspects _ steps).bind fun _ => trivial
  · trivial

theorem namedAction_consults (actionId : Json F) : (namedAction actionId).Only Consults := by
  rw [namedAction]
  split
  · exact consults_perform _ rfl
  · trivial

theorem sideEffect_inspects (path : PurePath) (acc : List (Json F)) (step : Dict String (Json F)) :
    (sideEffect path acc step).Only Inspects :=
  (leftArtifact_inspects path step).bind fun _ => trivial

theorem uncheckpointed_inspects (R : Resumption F) (steps : List (Dict String (Json F))) :
    (uncheckpointed R steps).Only Inspects := by
  refine (found_inspects _).bind fun path => ?_
  cases path with
  | none => trivial
  | some path => exact Proc.only_fold (sideEffect_inspects path) _ _

theorem completedBefore_inspects (R : Resumption F) (expected : Json F) :
    (completedBefore R expected).Only Inspects := by
  rw [completedBefore]
  split
  · trivial
  · refine Proc.Only.bind ?_ fun _ => trivial
    rw [unprovenCompletion]
    split
    · exact (iterable_inspects expected).bind fun arts => missingArtifact_inspects _ arts
    · trivial
    · trivial

variable [FloatText F]

theorem verifyStep_inspects (path : PurePath) (steps : Json F) (verified : List (Json F))
    (name : Json F) : (verifyStep path steps verified name).Only Inspects := by
  simp only [verifyStep, Proc.bind_eq, Proc.pure_eq]
  refine (iterable_inspects _).bind fun candidates => Proc.Only.bind (by simp) fun step => ?_
  split
  · exact (hasContent_inspects path _).bind fun _ => trivial
  · trivial

theorem completedSteps_inspects (R : Resumption F) (steps : Json F) :
    (completedSteps R steps).Only Inspects := by
  rw [completedSteps]
  split
  · trivial
  · refine (iterable_inspects _).bind fun candidates => (found_inspects _).bind fun path => ?_
    cases path with
    | none => trivial
    | some path => exact Proc.only_fold (verifyStep_inspects path steps) _ _

end Parts

/-! ## Loops over a list of items -/

section Loops

variable {q : Request F} {h : History F} {items rest : List (QueueItem F)} {item : QueueItem F}

structure Views (q : Request F) (items : List (QueueItem F)) (m : (protocol F).Mode) : Prop where
  request : m.1 = q
  nodup : (items.map (·.dispatchId)).Nodup
  view : ∀ item ∈ items, snapshot m.2 item.dispatchId = some item

theorem find?_of_nodup (hn : (items.map (·.dispatchId)).Nodup) (hi : item ∈ items) :
    items.find? (·.dispatchId = item.dispatchId) = some item := by
  induction items with
  | nil => cases hi
  | cons x xs ih =>
    rw [List.map_cons, List.nodup_cons] at hn
    rcases List.mem_cons.mp hi with rfl | hi
    · simp
    · have hne : x.dispatchId ≠ item.dispatchId := fun he =>
        hn.1 (he ▸ List.mem_map_of_mem hi)
      rw [List.find?_cons_of_neg (by simpa using hne)]
      exact ih hn.2 hi

theorem views_list {teamId : String} (hn : (items.map (·.dispatchId)).Nodup) :
    Views q items (q, h ++ [⟨.listQueueByTeam teamId, .ok items⟩]) where
  request := rfl
  nodup := hn
  view item hi := by
    rw [snapshot_snoc, shown, find?_of_nodup hn hi]
    rfl

theorem Views.quiet (hv : Views q items (q, h)) {o : Op F} {r : Except Error o.Ret}
    (ho : Quiet o) : Views q items (q, h ++ [⟨o, r⟩]) :=
  ⟨rfl, hv.nodup, fun item hi => (snapshot_quiet ho).trans (hv.view item hi)⟩

theorem Views.tail {m : (protocol F).Mode} (hv : Views q (item :: rest) m) : Views q rest m :=
  ⟨hv.request, (List.nodup_cons.mp hv.nodup).2,
    fun item hi => hv.view item (List.mem_cons_of_mem _ hi)⟩

theorem Views.save (hv : Views q (item :: rest) (q, h)) {item' : QueueItem F}
    (hd : item'.dispatchId = item.dispatchId) (r : Except Error Unit) :
    Views q rest (q, h ++ [⟨.saveQueueItem item', r⟩]) where
  request := rfl
  nodup := hv.tail.nodup
  view i hi := by
    have hne : item'.dispatchId ≠ i.dispatchId := fun he =>
      (List.nodup_cons.mp hv.nodup).1 (List.mem_map.mpr ⟨i, hi, he.symm.trans hd⟩)
    rw [snapshot_snoc, ← hv.tail.view i hi]
    cases r <;> simp [shown, hne]

theorem derived_status (item : QueueItem F) (status : QueueTaskStatus) (updatedAt : F) :
    Derived item { item with status, updatedAt } :=
  ⟨rfl, rfl, rfl, [], by simp⟩

end Loops

section Reconciliation

variable {teamId workerId reason sessionId : String} {mark : Bool}

theorem interruptionEntries_follows {q : Request F} {items : List (QueueItem F)} {h : History F}
    (hv : Views q items (q, h)) :
    (interruptionEntries reason).Follows (protocol F) (fun m r => Views q items m ∧
      ∀ entries, r = .ok entries → ∃ notes : List (String × F),
        entries = notes.map fun note => interruptionEntry note.1 note.2) (q, h) := by
  rw [interruptionEntries]
  split
  · exact ⟨hv, fun entries he => ⟨[], by cases he; rfl⟩⟩
  · refine follows_perform _ trivial (fun time _ => ⟨hv.quiet rfl, fun entries he => ?_⟩) fun e =>
      ⟨hv.quiet rfl, fun entries he => by cases he⟩
    exact ⟨[(reason, time)], by cases he; rfl⟩

theorem preempt_follows {item : QueueItem F} {rest : List (QueueItem F)}
    {m : (protocol F).Mode} (hv : Views (.interruptWorker workerId reason) (item :: rest) m) :
    (preempt workerId reason item).Follows (protocol F)
      (Proc.loopPost (Views (.interruptWorker workerId reason)) (Q := fun _ _ => True) rest) m := by
  obtain ⟨q, h⟩ := m
  obtain rfl := hv.request
  rw [preempt]
  split
  next hc =>
    simp only [Proc.bind_eq]
    refine (interruptionEntries_follows hv).bind ?_ fun _ _ _ => trivial
    rintro ⟨q', h'⟩ entries ⟨hv, hn⟩
    obtain rfl := hv.request
    obtain ⟨notes, rfl⟩ := hn entries rfl
    refine follows_perform _ trivial (fun updatedAt _ => ?_) fun _ => trivial
    have hv := hv.quiet (o := .now) (r := .ok updatedAt) rfl
    refine follows_last _ ⟨item, hv.view item (by simp), ⟨rfl, rfl, rfl, notes, rfl⟩, ⟨hc.2, rfl⟩,
      trivial⟩ ?_
    rintro (e | u) -
    · trivial
    · exact hv.save (by rfl) _
  next => exact hv.tail

theorem interruptWorker_follows : (interruptWorker workerId reason).Follows (protocol F)
    (fun _ _ => True) (.interruptWorker workerId reason, []) := by
  simp only [interruptWorker, Proc.bind_eq]
  refine follows_perform _ trivial (fun session _ => ?_) fun _ => trivial
  cases session with
  | none => trivial
  | some session =>
    refine follows_perform _ trivial (fun updatedAt _ => ?_) fun _ => trivial
    refine follows_perform _ trivial (fun _ _ => ?_) fun _ => trivial
    refine follows_perform _ trivial (fun items hn => ?_) fun _ => trivial
    refine Proc.Follows.bind (M := fun _ _ => True) ?_ (fun _ _ _ => trivial) fun _ _ _ => trivial
    exact Proc.follows_forEach _ _ (views_list hn) (fun _ _ _ => preempt_follows) fun _ _ => trivial

theorem abandoned_cases (mark : Bool) (item : QueueItem F) :
    abandoned mark item = .failed ∨ abandoned mark item = .ambiguous ∧
      (item.status = .dispatched ∨ item.status = .running) := by
  rw [abandoned]
  split
  next h => exact .inr ⟨rfl, h.2⟩
  next => exact .inl rfl

theorem reconcileItem_follows {acc : Reconciled} {item : QueueItem F}
    {rest : List (QueueItem F)} {m : (protocol F).Mode}
    (hv : Views (.reconcileTeam teamId mark) (item :: rest) m) :
    (reconcileItem sessionId mark acc item).Follows (protocol F)
      (Proc.loopPost (Views (.reconcileTeam teamId mark)) (Q := fun _ _ => True) rest) m := by
  obtain ⟨q, h⟩ := m
  obtain rfl := hv.request
  rw [reconcileItem]
  split
  next hc =>
    simp only [Proc.bind_eq]
    refine follows_perform _ trivial (fun updatedAt _ => ?_) fun _ => trivial
    have hv := hv.quiet (o := .now) (r := .ok updatedAt) rfl
    refine follows_perform _ ⟨item, hv.view item (by simp), derived_status item _ _,
      ⟨hc.2, abandoned_cases mark item⟩, trivial⟩ (fun _ _ => ?_) fun _ => trivial
    exact hv.save (by rfl) _
  next => exact hv.tail

theorem isAlive_quiet (config : WorkerConfig F) : (isAlive config).Only Quiet := by
  rw [isAlive]
  split
  · trivial
  · exact quiet_perform _ rfl

theorem reconcileSession_follows {acc : Reconciled} {session : AgentSession F}
    {rest : List (AgentSession F)} {m : (protocol F).Mode}
    (hm : m.1 = .reconcileTeam teamId mark) :
    (reconcileSession teamId mark acc session).Follows (protocol F)
      (Proc.loopPost (fun _ (m : (protocol F).Mode) => m.1 = .reconcileTeam teamId mark)
        (Q := fun _ _ => True) rest) m := by
  obtain ⟨q, h⟩ := m
  subst hm
  rw [reconcileSession]
  split
  next =>
    simp only [Proc.bind_eq]
    refine Quiet.follows_bind (isAlive_quiet _) (I := fun _ _ => True) trivial
      (fun _ _ _ _ _ => trivial) (fun alive h _ => ?_) fun _ _ _ => trivial
    split
    · refine follows_perform _ trivial (fun updatedAt _ => ?_) fun _ => trivial
      refine follows_perform _ trivial (fun _ _ => ?_) fun _ => trivial
      refine follows_perform _ trivial (fun items hn => ?_) fun _ => trivial
      refine Proc.follows_fold _ _ _ (views_list hn) (fun _ _ _ _ hv => ?_) fun _ _ hv => hv.request
      exact (reconcileItem_follows hv).mono fun m r hr => by
        cases r with
        | error e => trivial
        | ok acc => exact hr
    · rfl
  next => rfl

theorem reconcileTeamAfterCrash_follows : (reconcileTeamAfterCrash teamId mark).Follows (protocol F)
    (fun _ _ => True) (.reconcileTeam teamId mark, []) := by
  simp only [reconcileTeamAfterCrash, Proc.bind_eq]
  refine follows_perform _ trivial (fun sessions _ => ?_) fun _ => trivial
  refine Proc.Follows.bind (M := fun _ _ => True) ?_ (fun _ _ _ => trivial) fun _ _ _ => trivial
  exact Proc.follows_fold (I := fun _ (m : (protocol F).Mode) => m.1 = .reconcileTeam teamId mark)
    _ _ _ rfl
    (fun _ _ _ _ => reconcileSession_follows) fun _ _ _ => trivial

theorem reconcileAmbiguousTask_follows {dispatchId resolution operatorNotes : String} :
    (reconcileAmbiguousTask B dispatchId resolution operatorNotes).Follows (protocol F)
      (fun _ _ => True) (.reconcileAmbiguous dispatchId resolution operatorNotes, []) := by
  rw [reconcileAmbiguousTask]
  cases hr : resolutionStatus resolution with
  | none => trivial
  | some status =>
    simp only [Proc.bind_eq]
    refine follows_perform _ trivial (fun found hd => ?_) fun _ => trivial
    cases found with
    | none => trivial
    | some item =>
      obtain rfl : item.dispatchId = dispatchId := hd
      refine (Proc.follows_require_bind ..).mpr ⟨fun hst => ?_, fun _ => trivial⟩
      refine follows_perform _ trivial (fun resolvedAt _ => ?_) fun _ => trivial
      refine follows_perform _ trivial (fun updatedAt _ => ?_) fun _ => trivial
      refine follows_perform _ ⟨item, ?_, ⟨rfl, rfl, rfl, [], by simp⟩, ⟨hst, hr⟩, rfl⟩
        (fun _ _ => trivial) fun _ => trivial
      simp [snapshot, shown, Option.filter]

end Reconciliation

/-! ## Resumption -/

section Resumption

variable {q : Request F} {h : History F} {d : String} {trusted : Bool}
variable {base item : QueueItem F}

structure SameTask (base item : QueueItem F) : Prop where
  dispatchId : item.dispatchId = base.dispatchId
  teamId : item.teamId = base.teamId
  toSessionId : item.toSessionId = base.toSessionId
  dedupKey : item.dedupKey = base.dedupKey
  steering : item.steeringInstructions = base.steeringInstructions

theorem SameTask.update (hs : SameTask base item) (status : QueueTaskStatus)
    (payload : Dict String (Json F)) (updatedAt : F) :
    SameTask base { item with status, payload, updatedAt } :=
  ⟨hs.dispatchId, hs.teamId, hs.toSessionId, hs.dedupKey, hs.steering⟩

theorem SameTask.set (hs : SameTask base item) (owner : Owner) (key : String) (v : Json F) :
    SameTask base (owner.set item key v) := by
  cases owner <;> exact hs.update _ _ _

structure Held (base : QueueItem F) (q : Request F) (h : History F) : Prop where
  request : ∃ trusted, q = .resumeTask base.dispatchId trusted
  holds : Holds base.dispatchId h
  view : ∃ s, snapshot h base.dispatchId = some s ∧ s.status = .running ∧ SameTask base s

theorem Held.other (hh : Held base q h) {o : Op F} {r : Except Error o.Ret}
    (hs : snapshot (h ++ [⟨o, r⟩]) base.dispatchId = snapshot h base.dispatchId)
    (ho : ∀ item, o ≠ .saveQueueItem item) : Held base q (h ++ [⟨o, r⟩]) where
  request := hh.request
  holds := by
    refine ⟨claimed_snoc hh.holds.1 _, fun hr => ?_⟩
    rcases released_snoc_inv hr with hr | ⟨item, he, -⟩
    · exact hh.holds.2 hr
    · exact ho item (Event.mk.inj he).1
  view := hs.symm ▸ hh.view

theorem Held.quiet {o : Op F} {r : Except Error o.Ret} (ho : Quiet o) (hh : Held base q h) :
    Held base q (h ++ [⟨o, r⟩]) :=
  hh.other (snapshot_quiet ho) fun item he => by subst he; cases ho

theorem Held.dispatched (hh : Held base q h) (workerId taskId : String)
    (payload : Dict String (Json F)) (r : Except Error (Dict String (Json F))) :
    Held base q (h ++ [⟨.dispatchTaskToWorker workerId taskId payload, r⟩]) :=
  hh.other (by rw [snapshot_snoc]; rfl) fun item he => by cases he

theorem Held.saved (hh : Held base q h) (hi : SameTask base item) (hst : item.status = .running) :
    Held base q (h ++ [⟨.saveQueueItem item, .ok ()⟩]) where
  request := hh.request
  holds := by
    refine ⟨claimed_snoc hh.holds.1 _, fun hr => ?_⟩
    rcases released_snoc_inv hr with hr | ⟨item', he, -, hne⟩
    · exact hh.holds.2 hr
    · obtain rfl := Op.saveQueueItem.inj (Event.mk.inj he).1
      exact hne hst
  view := ⟨item, by simp [shown, hi.dispatchId], hst, hi⟩

theorem Held.allowed (hh : Held base q h) (hi : SameTask base item)
    (hst : item.status ∈ [.dispatched, .running, .completed, .failed]) :
    Allowed q h (.saveQueueItem item) := by
  obtain ⟨trusted, rfl⟩ := hh.request
  obtain ⟨s, hs, hrun, hsame⟩ := hh.view
  refine ⟨s, by rw [hi.dispatchId, hs], ⟨?_, ?_, ?_, [], ?_⟩, ⟨hrun, hst⟩, hi.dispatchId, hh.holds⟩
  · exact hi.teamId.trans hsame.teamId.symm
  · exact hi.toSessionId.trans hsame.toSessionId.symm
  · exact hi.dedupKey.trans hsame.dedupKey.symm
  · simp [hi.steering, hsame.steering]

theorem Held.mayDispatch (hh : Held base q h) (workerId taskId : String)
    (payload : Dict String (Json F)) :
    Allowed q h (.dispatchTaskToWorker workerId taskId payload) :=
  let ⟨trusted, hq⟩ := hh.request
  ⟨base.dispatchId, trusted, hq, hh.holds⟩

variable {α β : Type}

theorem Held.follows_quiet (hh : Held base q h) {p : Call F α} (hp : p.Only Quiet)
    {f : α → Call F β}
    (hf : ∀ a h, Held base q h → (f a).Follows (protocol F) (fun _ _ => True) (q, h)) :
    (p.bind f).Follows (protocol F) (fun _ _ => True) (q, h) :=
  Quiet.follows_bind hp hh (fun _ _ _ ho hh => hh.quiet ho) hf fun _ _ _ => trivial

theorem Held.follows_save (hh : Held base q h) (hi : SameTask base item)
    (hst : item.status = .running) {f : Unit → Call F β}
    {Q : (protocol F).Mode → Except Error β → Prop}
    (hf : ∀ h, Held base q h → (f ()).Follows (protocol F) Q (q, h)) (hQ : ∀ m e, Q m (.error e)) :
    ((perform (.saveQueueItem item)).bind f).Follows (protocol F) Q (q, h) :=
  follows_perform _ (hh.allowed hi (by simp [hst])) (fun _ _ => hf _ (hh.saved hi hst))
    fun _ => hQ _ _

theorem Held.follows_release (hh : Held base q h) (hi : SameTask base item)
    (hst : item.status ∈ [.dispatched, .running, .completed, .failed]) {f : Unit → Call F β}
    {Q : (protocol F).Mode → Except Error β → Prop}
    (hf : ∀ m, (f ()).Follows (protocol F) Q m) (hQ : ∀ m e, Q m (.error e)) :
    ((perform (.saveQueueItem item)).bind f).Follows (protocol F) Q (q, h) :=
  follows_perform _ (hh.allowed hi hst) (fun _ _ => hf _) fun _ => hQ _ _

variable [FloatInt F]

def Continues (base : QueueItem F) (q : Request F) (m : (protocol F).Mode) (item : QueueItem F) :
    Prop :=
  m.1 = q ∧ Held base q m.2 ∧ SameTask base item

theorem actionFor_follows (R : Resumption F) (taskId : String) (owner : Owner)
    (hh : Held base q h) (hi : SameTask base item) :
    (actionFor B R item taskId owner).Follows (protocol F)
      (fun m r => ∀ p, r = .ok p → Continues base q m p.2) (q, h) := by
  simp only [actionFor, Proc.bind_eq, Proc.pure_eq]
  have hkeep : ∀ h (o : Op F) r, Quiet o → Held base q h → Held base q (h ++ [⟨o, r⟩]) :=
    fun _ _ _ ho hh => hh.quiet ho
  refine Quiet.follows_bind (quiet_of_consults (namedAction_consults _)) hh hkeep
    (fun action h hh => ?_) fun _ _ _ _ he => by cases he
  refine Quiet.follows_bind (quiet_of_consults (needsApproval_consults ..)) hh hkeep
    (fun fresh h hh => ?_) fun _ _ _ _ he => by cases he
  split
  · intro p he
    cases he
    exact ⟨rfl, hh, hi⟩
  · refine follows_perform _ trivial (fun action _ p he => ?_) fun _ _ he => by cases he
    cases he
    exact ⟨rfl, hh.quiet rfl, hi.set _ _ _⟩

theorem approvals_follows (R : Resumption F) (commandSteps : List (String × Owner))
    (pending : List PendingAction) (hh : Held base q h) (hi : SameTask base item) :
    (approvals B R item pending commandSteps).Follows (protocol F)
      (fun m r => ∀ item pending, r = .ok (item, pending, none) →
        Continues base q m item) (q, h) := by
  induction commandSteps generalizing item pending h with
  | nil =>
    intro item' pending' he
    cases he
    exact ⟨rfl, hh, hi⟩
  | cons c commandSteps ih =>
    obtain ⟨taskId, owner⟩ := c
    refine (actionFor_follows R taskId owner hh hi).bind ?_ fun _ _ _ _ _ he => by cases he
    rintro ⟨q', h'⟩ ⟨action, item'⟩ hc
    obtain ⟨rfl, hh, hi⟩ := hc _ rfl
    simp only
    split
    · exact ih _ hh hi
    split
    · exact ih _ hh hi
    simp only [Proc.bind_eq]
    refine follows_perform _ trivial (fun updatedAt _ => ?_) fun _ _ _ he => by cases he
    refine Held.follows_release (hh.quiet rfl) (hi.update _ _ _) (by simp) (fun _ _ _ he => ?_)
      fun _ _ _ _ he => by cases he
    cases he

theorem preflight_follows (R : Resumption F) (completed : List (Json F))
    (commandSteps : List (String × Owner)) (hh : Held base q h) (hi : SameTask base item) :
    (preflightCommandApprovals B R item completed commandSteps).Follows (protocol F)
      (fun m r => ∀ item, r = .ok (item, none) → Continues base q m item) (q, h) := by
  rw [preflightCommandApprovals]
  split
  · intro item' he
    cases he
    exact ⟨rfl, hh, hi⟩
  split
  · simp only [Proc.bind_eq]
    refine (approvals_follows R commandSteps [] hh hi).bind ?_ fun _ _ _ _ he => by cases he
    rintro ⟨q', h'⟩ ⟨item', pending, reply⟩ hc
    cases reply with
    | some reply => exact fun _ he => by cases he
    | none =>
      obtain ⟨rfl, hh, hi⟩ := hc _ _ rfl
      refine follows_perform _ trivial (fun updatedAt _ => ?_) fun _ _ he => by cases he
      cases pending with
      | nil =>
        refine Held.follows_save (hh.quiet rfl) (hi.update _ _ _) rfl (fun h hh item' he => ?_)
          fun _ _ _ he => by cases he
        cases he
        exact ⟨rfl, hh, hi.update _ _ _⟩
      | cons first others =>
        refine Held.follows_release (hh.quiet rfl) (hi.update _ _ _) (by simp) (fun _ _ he => ?_)
          fun _ _ _ he => by cases he
        cases he
  · refine Held.follows_release hh (hi.update _ _ _) (by simp) (fun _ _ he => ?_)
      fun _ _ _ he => by cases he
    cases he

omit [FloatInt F] in
theorem executeSteps_follows (R : Resumption F) (skipped : List (Json F)) (remaining : List Nat)
    (stepIdx tokens : Int) (completed : List (Json F)) (hh : Held base q h)
    (hi : SameTask base item) (hst : item.status = .running) :
    (executeSteps B R skipped remaining item stepIdx tokens completed).Follows (protocol F)
      (fun _ _ => True) (q, h) := by
  induction remaining generalizing item stepIdx tokens completed h with
  | nil =>
    simp only [executeSteps, Proc.bind_eq]
    refine follows_perform _ trivial (fun updatedAt _ => ?_) fun _ => trivial
    exact Held.follows_release (hh.quiet rfl) (hi.update _ _ _) (by simp) (fun _ => trivial)
      fun _ _ => trivial
  | cons i remaining ih =>
    simp only [executeSteps, Proc.bind_eq]
    refine follows_perform _ (hh.mayDispatch _ _ _) (fun res _ => ?_) fun _ => trivial
    have hh := hh.dispatched R.workerId
      (item.taskId ++ "-" ++ B.format (stepName ((Owner.step i).dict item) (stepIdx + 1)))
      (withWorkspace R ((Owner.step i).dict item)) (.ok res)
    split
    · refine Held.follows_save hh (hi.update _ _ _) (by exact hst) (fun h hh => ?_)
        fun _ _ => trivial
      split
      · trivial
      · refine follows_perform _ trivial (fun createdAt _ => ?_) fun _ => trivial
        refine follows_perform _ trivial (fun _ _ => ?_) fun _ => trivial
        exact ih _ _ _ ((hh.quiet rfl).quiet rfl) (hi.update _ _ _) (by exact hst)
    · refine follows_perform _ trivial (fun updatedAt _ => ?_) fun _ => trivial
      exact Held.follows_release (hh.quiet rfl) (hi.update _ _ _) (by simp) (fun _ => trivial)
        fun _ _ => trivial

variable [FloatText F]

theorem executeWorkflow_follows (R : Resumption F) (count : Nat) (remaining : List Nat)
    (completed : List (Json F)) (hh : Held base q h) (hi : SameTask base item) :
    (executeWorkflow B R item count remaining completed).Follows (protocol F) (fun _ _ => True)
      (q, h) := by
  simp only [executeWorkflow, Proc.bind_eq]
  split
  · exact Held.follows_release hh (hi.update _ _ _) (by simp) (fun _ => trivial) fun _ _ => trivial
  · refine hh.follows_quiet (by simp) fun steps h hh => ?_
    refine (preflight_follows R completed steps hh hi).bind ?_ fun _ _ _ => trivial
    rintro ⟨q', h'⟩ ⟨item', reply⟩ hc
    cases reply with
    | some reply => trivial
    | none =>
      obtain ⟨rfl, hh, hi⟩ := hc _ rfl
      refine follows_perform _ trivial (fun updatedAt _ => ?_) fun _ => trivial
      refine Held.follows_save (hh.quiet rfl) (hi.update _ _ _) rfl (fun h hh => ?_)
        fun _ _ => trivial
      exact executeSteps_follows R _ _ _ _ _ hh (hi.update _ _ _) rfl

theorem resumeSteps_follows (R : Resumption F) (steps : List (Dict String (Json F)))
    (completed : List (Json F)) (hh : Held base q h) (hi : SameTask base item) :
    (resumeSteps B R item steps completed).Follows (protocol F) (fun _ _ => True) (q, h) := by
  simp only [resumeSteps, Proc.bind_eq]
  refine hh.follows_quiet (quiet_of_inspects (uncheckpointed_inspects R _)) fun effects h hh => ?_
  split
  · refine hh.follows_quiet (quiet_of_inspects (missingEvidence_inspects R _ _))
      fun missing h hh => ?_
    split
    · exact executeWorkflow_follows R _ _ _ hh hi
    · refine follows_perform _ trivial (fun updatedAt _ => ?_) fun _ => trivial
      exact Held.follows_release (hh.quiet rfl) (hi.update _ _ _) (by simp) (fun _ => trivial)
        fun _ _ => trivial
  · exact executeWorkflow_follows R _ _ _ hh hi

omit [FloatInt F] [FloatText F] in
theorem executeInstruction_follows (R : Resumption F) (hh : Held base q h)
    (hi : SameTask base item) :
    (executeInstruction R item).Follows (protocol F) (fun _ _ => True) (q, h) := by
  simp only [executeInstruction, Proc.bind_eq]
  refine follows_perform _ trivial (fun updatedAt _ => ?_) fun _ => trivial
  refine Held.follows_save (hh.quiet rfl) (hi.update _ _ _) rfl (fun h hh => ?_) fun _ _ => trivial
  refine follows_perform _ (hh.mayDispatch _ _ _) (fun res _ => ?_) fun _ => trivial
  refine follows_perform _ trivial (fun updatedAt _ => ?_) fun _ => trivial
  refine Held.follows_release ((hh.dispatched _ _ _ _).quiet rfl)
    ((hi.update _ _ _).update _ _ _) ?_
    (fun _ => trivial) fun _ _ => trivial
  split <;> simp

omit [FloatText F] in
theorem resumeInstruction_follows (R : Resumption F) (completed : List (Json F))
    (hh : Held base q h) (hi : SameTask base item) :
    (resumeInstruction B R item completed).Follows (protocol F) (fun _ _ => True) (q, h) := by
  simp only [resumeInstruction, Proc.bind_eq]
  refine hh.follows_quiet (quiet_of_inspects (completedBefore_inspects R _)) fun done h hh => ?_
  split
  · refine follows_perform _ trivial (fun updatedAt _ => ?_) fun _ => trivial
    exact Held.follows_release (hh.quiet rfl) (hi.update _ _ _) (by simp) (fun _ => trivial)
      fun _ _ => trivial
  split
  · refine (preflight_follows R completed _ hh hi).bind ?_ fun _ _ _ => trivial
    rintro ⟨q', h'⟩ ⟨item', reply⟩ hc
    cases reply with
    | some reply => trivial
    | none =>
      obtain ⟨rfl, hh, hi⟩ := hc _ rfl
      exact executeInstruction_follows R hh hi
  · exact executeInstruction_follows R hh hi

theorem resumeClaimed_follows (trusted : Bool) (session : AgentSession F) (hh : Held base q h)
    (hi : SameTask base item) :
    (resumeClaimed B trusted item session).Follows (protocol F) (fun _ _ => True) (q, h) := by
  simp only [resumeClaimed, Proc.bind_eq]
  refine hh.follows_quiet (quiet_of_inspects (worktreeOf_inspects ..)) fun worktreePath h hh => ?_
  refine hh.follows_quiet (quiet_of_inspects (commitOf_inspects _)) fun currentCommit h hh => ?_
  refine follows_perform _ trivial (fun latest _ => ?_) fun _ => trivial
  refine Held.follows_quiet (hh.quiet rfl) (quiet_of_inspects (completedSteps_inspects _ _))
    fun completed h hh => ?_
  split
  · split
    · trivial
    · exact resumeSteps_follows _ _ _ hh hi
  · exact resumeInstruction_follows _ _ hh hi

def Fresh (d : String) (_ : Request F) (h : History F) : Prop :=
  ∀ e ∈ h, e.op ≠ .markTaskResuming d ∧ ∀ item, e.op ≠ .saveQueueItem item

omit [FloatInt F] [FloatText F] in
theorem Fresh.snoc {e : Event (sig F) Error} (hf : Fresh d q h) (hm : e.op ≠ .markTaskResuming d)
    (hs : ∀ item, e.op ≠ .saveQueueItem item) : Fresh d q (h ++ [e]) := by
  intro e' he'
  rcases List.mem_append.mp he' with he' | he'
  · exact hf e' he'
  · obtain rfl := List.mem_singleton.mp he'
    exact ⟨hm, hs⟩

omit [FloatInt F] [FloatText F] in
theorem Fresh.held (hf : Fresh d q h) (hd : item.dispatchId = d) (hst : item.status = .running)
    (hq : q = .resumeTask d trusted) : Held item q (h ++ [⟨.markTaskResuming d, .ok item⟩]) := by
  subst hd
  refine ⟨⟨trusted, hq⟩, ⟨⟨item, by simp⟩, ?_⟩, item, by simp [shown], hst, rfl, rfl, rfl, rfl, rfl⟩
  rintro ⟨item', hi, -⟩
  rcases List.mem_append.mp hi with hi | hi
  · exact (hf _ hi).2 item' rfl
  · cases List.mem_singleton.mp hi

theorem resumeTaskFromCheckpoint_follows (d : String) (trusted : Bool) :
    (resumeTaskFromCheckpoint B d trusted).Follows (protocol F) (fun _ _ => True)
      (.resumeTask d trusted, []) := by
  simp only [resumeTaskFromCheckpoint, Proc.bind_eq]
  refine follows_perform _ trivial (fun preItem _ => ?_) fun _ => trivial
  have hf : Fresh d (.resumeTask d trusted)
      ([] ++ [⟨.loadQueueItem d, .ok preItem⟩] : History F) := by simp [Fresh]
  refine Quiet.follows_bind (isOrphan_quiet preItem) hf (fun h o r ho hf => ?_)
    (fun orphan h hf => ?_) fun _ _ _ => trivial
  · exact hf.snoc (fun he => by subst he; cases ho) fun item he => by subst he; cases ho
  split
  · trivial
  · refine follows_perform _ ⟨⟨trusted, rfl⟩, fun e he => (hf e he).1⟩ (fun item hexp => ?_)
      fun _ => trivial
    have hsame : SameTask item item := ⟨rfl, rfl, rfl, rfl, rfl⟩
    refine Held.follows_quiet (hf.held hexp.1 hexp.2 rfl)
      (attachWorker_quiet _) fun session h hh => ?_
    cases session with
    | none =>
      refine follows_perform _ trivial (fun updatedAt _ => ?_) fun _ => trivial
      exact Held.follows_release (hh.quiet rfl) (hsame.update _ _ _) (by simp) (fun _ => trivial)
        fun _ _ => trivial
    | some session => exact resumeClaimed_follows trusted session hh hsame

end Resumption

/-! ## Handoff -/

section Handoff

variable {q : Request F} {h : History F} {evidence : HandoffEvidence F} {verify : Bool}

def Unfinalized (_ : Request F) (h : History F) : Prop :=
  ∀ teamId evidence status workerId, ⟨.finalizeHandoff teamId evidence status workerId, .ok ()⟩ ∉ h

theorem Unfinalized.snoc {e : Event (sig F) Error} (hu : Unfinalized q h)
    (he : ∀ teamId evidence status workerId,
      e ≠ ⟨.finalizeHandoff teamId evidence status workerId, .ok ()⟩) :
        Unfinalized q (h ++ [e]) := by
  intro teamId evidence status workerId hm
  rcases List.mem_append.mp hm with hm | hm
  · exact hu _ _ _ _ hm
  · exact he _ _ _ _ (List.mem_singleton.mp hm).symm

theorem Unfinalized.other (hu : Unfinalized q h) {o : Op F} {r : Except Error o.Ret}
    (ho : ∀ teamId evidence status workerId, o ≠ .finalizeHandoff teamId evidence status workerId) :
    Unfinalized q (h ++ [⟨o, r⟩]) :=
  hu.snoc fun _ _ _ _ he => ho _ _ _ _ (Event.mk.inj he).1

theorem Unfinalized.quiet (hu : Unfinalized q h) {o : Op F} {r : Except Error o.Ret}
    (ho : Quiet o) : Unfinalized q (h ++ [⟨o, r⟩]) :=
  hu.other fun _ _ _ _ he => by subst he; cases ho

abbrev HandedOver (evidence : HandoffEvidence F) (verify : Bool) {α : Type}
    (f : α → Response F) (m : (protocol F).Mode) (r : Except Error α) : Prop :=
  Outcome (.submitWorkerHandoff evidence verify) m.2 (r.map f)

theorem finalize_follows {teamId : String} {evidence' : HandoffEvidence F} {f : Unit → Response F}
    (hd : evidence'.dispatchId = evidence.dispatchId)
    (hu : Unfinalized (.submitWorkerHandoff evidence verify) h) :
    (finalizeHandoffTransaction B teamId evidence' (handoffStatus evidence)).Follows (protocol F)
      (HandedOver evidence verify f) (.submitWorkerHandoff evidence verify, h) := by
  simp only [finalizeHandoffTransaction, Proc.bind_eq]
  have hsel : ∀ r, Unfinalized (.submitWorkerHandoff evidence verify)
      (h ++ [⟨.selectQueueStatus evidence'.dispatchId, r⟩]) := fun r =>
    hu.other fun _ _ _ _ he => by cases he
  refine follows_perform _ trivial (fun found _ => ?_) fun e => hsel _
  cases found with
  | none => exact hsel _
  | some p =>
    obtain ⟨status, workerId⟩ := p
    refine (Proc.follows_require_bind ..).mpr ⟨fun hst => ?_, fun _ => hsel _⟩
    refine follows_perform _ trivial (fun finalized _ => ?_) fun e => (hsel _).quiet rfl
    refine (Proc.follows_require_bind ..).mpr ⟨fun hfin => ?_, fun _ => (hsel _).quiet rfl⟩
    refine follows_last _ ⟨evidence, verify, status, rfl, hd, rfl, by simp, ?_, hst⟩ ?_
    · simp [selected]
    · rintro (e | u) -
      · exact ((hsel _).quiet rfl).snoc fun _ _ _ _ he => by cases he
      · exact ⟨teamId, evidence', workerId, hd, by simp⟩

theorem handoffStatus_congr {evidence' : HandoffEvidence F}
    (hst : evidence'.status = evidence.status) :
    handoffStatus evidence' = handoffStatus evidence :=
  if_congr (by simp [contractOnly, hst]) rfl rfl

variable [FloatText F] [FloatInt F]

theorem checkReceipt_ok {evidence' : HandoffEvidence F}
    (hc : checkReceipt B evidence = .ok evidence') :
    evidence'.dispatchId = evidence.dispatchId ∧ evidence'.status = evidence.status := by
  rw [checkReceipt] at hc
  split at hc
  · obtain ⟨_, -, hc⟩ := bind_ok.mp hc
    cases hc
    exact ⟨rfl, rfl⟩
  · cases hc
    exact ⟨rfl, rfl⟩

theorem submitWorkerHandoff_follows (evidence : HandoffEvidence F) (verify : Bool) :
    (submitWorkerHandoff B evidence verify).Follows (protocol F)
      (HandedOver evidence verify .reply) (.submitWorkerHandoff evidence verify, []) := by
  have hkeep : ∀ h (o : Op F) r, Quiet o → Unfinalized (.submitWorkerHandoff evidence verify) h →
      Unfinalized (.submitWorkerHandoff evidence verify) (h ++ [⟨o, r⟩]) :=
    fun _ _ _ ho hu => hu.quiet ho
  have hload : ∀ r, Unfinalized (.submitWorkerHandoff evidence verify)
      ([] ++ [⟨.loadQueueItem evidence.dispatchId, r⟩]) := fun r =>
    Unfinalized.other (by simp [Unfinalized]) fun _ _ _ _ he => by cases he
  simp only [submitWorkerHandoff, Proc.bind_eq]
  refine follows_perform _ trivial (fun found _ => ?_) fun _ => hload _
  cases found with
  | none => exact hload _
  | some item =>
    refine Quiet.follows_bind (by simp) (hload _) hkeep (fun _ h hu => ?_) fun _ _ hu => hu
    refine follows_perform _ trivial (fun session _ => ?_) fun _ => hu.quiet rfl
    cases session with
    | none => exact hu.quiet rfl
    | some worker =>
      have hu := hu.quiet (o := .loadSession evidence.fromWorkerId) (r := .ok (some worker)) rfl
      refine Quiet.follows_bind (by simp) hu hkeep (fun _ h hu => ?_) fun _ _ hu => hu
      refine follows_perform _ trivial (fun team _ => ?_) fun _ => hu.quiet rfl
      have hu := hu.quiet (o := .loadTeam item.teamId) (r := .ok team) rfl
      refine Quiet.follows_bind (by simp) hu hkeep (fun _ h hu => ?_) fun _ _ hu => hu
      refine follows_perform _ trivial (fun handoffs _ => ?_) fun _ => hu.quiet rfl
      have hu := hu.quiet (o := .listHandoffsByTeam item.teamId) (r := .ok handoffs) rfl
      refine Quiet.follows_bind (by simp) hu hkeep (fun _ h hu => ?_) fun _ _ hu => hu
      refine Quiet.follows_bind (by simp) hu hkeep (fun _ h hu => ?_) fun _ _ hu => hu
      refine Quiet.follows_bind
        (Proc.only_when (quiet_of_looks (checkArtifacts_looks _ _))) hu hkeep
        (fun _ h hu => ?_) fun _ _ hu => hu
      cases hc : checkReceipt B evidence with
      | error e => exact hu
      | ok evidence' =>
        obtain ⟨hd, hst⟩ := checkReceipt_ok hc
        rw [Proc.ofExcept, Proc.bind, handoffStatus_congr hst]
        exact (finalize_follows (f := fun _ => .reply []) hd hu).bind (fun m u hm => hm)
          fun m e hm => hm

end Handoff

/-! ## All requests -/

section Body

theorem dispatchTask_follows {fromId toId taskId : String} {payload : Dict String (Json F)}
    {key : Option String} {priority : Int} :
    (dispatchTask B fromId toId taskId payload key priority).Follows (protocol F)
      (fun _ _ => True) (.dispatchTask fromId toId taskId payload key priority, []) := by
  simp only [dispatchTask, Proc.bind_eq]
  refine follows_perform _ trivial (fun sender _ => ?_) fun _ => trivial
  refine follows_perform _ trivial (fun receiver _ => ?_) fun _ => trivial
  split
  · trivial
  · trivial
  · refine (Proc.follows_require_bind ..).mpr ⟨fun _ => ?_, fun _ => trivial⟩
    refine follows_perform _ trivial (fun hex _ => ?_) fun _ => trivial
    refine follows_perform _ trivial (fun createdAt _ => ?_) fun _ => trivial
    refine follows_perform _ trivial (fun updatedAt _ => ?_) fun _ => trivial
    exact follows_last _ ⟨⟨_, _, _, _, _, _, rfl⟩, rfl, rfl⟩ fun _ _ => trivial

theorem cancelTask_follows {lead d reason : String} :
    (cancelTask B lead d reason).Follows (protocol F)
      (fun m r => ∀ item, r = .ok item → ⟨.cancelActiveQueueItem d lead reason, .ok item⟩ ∈ m.2)
      (.cancelTask lead d reason, []) := by
  simp only [cancelTask, Proc.bind_eq]
  refine follows_perform _ trivial (fun session _ => ?_) fun _ _ he => by cases he
  refine (Proc.follows_require_bind ..).mpr ⟨fun _ => ?_, fun _ _ he => by cases he⟩
  refine follows_perform _ trivial (fun found _ => ?_) fun _ _ he => by cases he
  cases found with
  | none => exact fun _ he => by cases he
  | some item =>
    refine (Proc.follows_require_bind ..).mpr ⟨fun _ => ?_, fun _ _ he => by cases he⟩
    refine follows_last _ rfl fun r _ item' he => ?_
    subst he
    simp

theorem setWorkerStatus_quiet (workerId : String) (status : WorkerStatus) :
    (setWorkerStatus (F := F) B workerId status).Only Quiet := by
  simp only [setWorkerStatus, Proc.bind_eq]
  refine Proc.only_op_bind rfl fun session => ?_
  cases session with
  | none => trivial
  | some session => exact Proc.only_op_bind rfl fun _ => Proc.only_op_bind rfl fun _ => trivial

theorem createTeam_quiet (teamId : Option String) (lead title : String) :
    (createTeam (F := F) teamId lead title).Only Quiet := by
  rw [createTeam]
  split
  · exact quiet_perform _ rfl
  · exact Proc.only_op_bind rfl fun _ => quiet_perform _ rfl

theorem quiet_outcome {q : Request F} {α : Type} {p : Call F α} {f : α → Response F}
    (hp : p.Only Quiet) (hQ : ∀ m r, Outcome q m r) :
    (p.bind fun a => .ret (f a)).Follows (protocol F) (fun m r => Outcome q m.2 r) (q, []) :=
  Quiet.follows_bind (I := fun _ _ => True) hp trivial (fun _ _ _ _ _ => trivial)
    (fun _ _ _ => hQ _ _) fun _ _ _ => hQ _ _

variable [FloatText F] [FloatInt F]

theorem body_follows (q : Request F) :
    (body B q).Follows (protocol F) (fun m r => Outcome q m.2 r) (q, []) := by
  cases q with
  | createTeam teamId lead title =>
    exact quiet_outcome (createTeam_quiet teamId lead title) fun _ _ => trivial
  | createWorker => exact quiet_outcome (quiet_perform _ rfl) fun _ _ => trivial
  | createWorkersBatch => exact quiet_outcome (quiet_perform _ rfl) fun _ _ => trivial
  | setWorkerStatus workerId status =>
    exact quiet_outcome (setWorkerStatus_quiet workerId status) fun _ _ => trivial
  | dispatchTask =>
    exact dispatchTask_follows.bind (fun _ _ _ => trivial) fun _ _ _ => trivial
  | steerTask =>
    exact follows_perform _ (.inl ⟨_, rfl, rfl, rfl⟩) (fun item _ => ⟨item, by simp⟩)
      fun _ => trivial
  | reprioritizeTask =>
    exact follows_perform _ (.inr ⟨_, rfl, rfl, rfl⟩) (fun _ _ => trivial) fun _ => trivial
  | cancelTask =>
    exact cancelTask_follows.bind (fun m item hm => ⟨item, hm item rfl⟩) fun _ _ _ => trivial
  | interruptWorker =>
    exact interruptWorker_follows.bind (fun _ _ _ => trivial) fun _ _ _ => trivial
  | submitWorkerHandoff =>
    exact (submitWorkerHandoff_follows _ _).bind (fun _ _ hm => hm) fun _ _ hm => hm
  | resumeTask =>
    exact (resumeTaskFromCheckpoint_follows _ _).bind (fun _ _ _ => trivial) fun _ _ _ => trivial
  | reconcileTeam =>
    exact reconcileTeamAfterCrash_follows.bind (fun _ _ _ => trivial) fun _ _ _ => trivial
  | reconcileAmbiguous =>
    exact reconcileAmbiguousTask_follows.bind (fun _ _ _ => trivial) fun _ _ _ => trivial

end Body

end SubagentBridge.Supervisor
