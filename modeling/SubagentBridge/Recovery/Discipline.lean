import SubagentBridge.Recovery.Supervisors

/-! What every call of a supervisor keeps to: it writes an item only as it follows from its
last view of that item, and it resumes an item only between claim and release. -/

namespace SubagentBridge.Supervisor

open Library Domain TeamStore

variable {F : Type}

abbrev History (F : Type) := List (Event (sig F) Error)

def shown (d : String) : (o : Op F) → Except Error o.Ret → Option (QueueItem F)
  | .loadQueueItem _, .ok found => found.filter (·.dispatchId = d)
  | .listQueueByTeam _, .ok items => items.find? (·.dispatchId = d)
  | .markTaskResuming _, .ok item => if item.dispatchId = d then some item else none
  | .saveQueueItem item, .ok _ => if item.dispatchId = d then some item else none
  | _, _ => none

def snapshot (h : History F) (d : String) : Option (QueueItem F) :=
  h.foldl (fun s e => (shown d e.op e.ans).or s) none

@[simp] theorem snapshot_snoc (h : History F) (e : Event (sig F) Error) (d : String) :
    snapshot (h ++ [e]) d = (shown d e.op e.ans).or (snapshot h d) := by
  simp [snapshot]

/-- The status that `finalize_handoff_transaction` last selected. -/
def selected (h : History F) (d : String) : Option QueueTaskStatus :=
  h.foldl (fun s e => match e with
    | ⟨.selectQueueStatus d', .ok found⟩ => if d' = d then found.map (·.1) else s
    | _ => s) none

def Claimed (d : String) (h : History F) : Prop := ∃ item, ⟨.markTaskResuming d, .ok item⟩ ∈ h

def Released (d : String) (h : History F) : Prop :=
  ∃ item, ⟨.saveQueueItem item, .ok ()⟩ ∈ h ∧ item.dispatchId = d ∧ item.status ≠ .running

def Holds (d : String) (h : History F) : Prop := Claimed d h ∧ ¬ Released d h

structure Derived (s item : QueueItem F) : Prop where
  teamId : item.teamId = s.teamId
  toSessionId : item.toSessionId = s.toSessionId
  dedupKey : item.dedupKey = s.dedupKey
  steering : ∃ notes : List (String × F), item.steeringInstructions =
    s.steeringInstructions ++ notes.map fun note => interruptionEntry note.1 note.2

def mayBecome : Request F → QueueTaskStatus → QueueTaskStatus → Prop
  | .interruptWorker _ _, x, y => x.active ∧ y = .interrupted
  | .reconcileTeam _ _, x, y =>
    x.active ∧ (y = .failed ∨ y = .ambiguous ∧ (x = .dispatched ∨ x = .running))
  | .reconcileAmbiguous _ resolution _, x, y =>
    x ∈ [.ambiguous, .failed, .dispatched] ∧ resolutionStatus resolution = some y
  | .resumeTask _ _, x, y => x = .running ∧ y ∈ [.dispatched, .running, .completed, .failed]
  | _, _, _ => False

def concerns : Request F → History F → String → Prop
  | .resumeTask d _, h, d' => d' = d ∧ Holds d h
  | .reconcileAmbiguous d _ _, _, d' => d' = d
  | _, _, _ => True

def Allowed (q : Request F) (h : History F) : Op F → Prop
  | .saveQueueItem item => ∃ s, snapshot h item.dispatchId = some s ∧ Derived s item ∧
      mayBecome q s.status item.status ∧ concerns q h item.dispatchId
  | .dispatchTaskToWorker _ _ _ => ∃ d trusted, q = .resumeTask d trusted ∧ Holds d h
  | .markTaskResuming d => (∃ trusted, q = .resumeTask d trusted) ∧
      ∀ e ∈ h, e.op ≠ .markTaskResuming d
  | .finalizeHandoff _ evidence status workerId => ∃ submitted verify seen,
      q = .submitWorkerHandoff submitted verify ∧
      evidence.dispatchId = submitted.dispatchId ∧ status = handoffStatus submitted ∧
      ⟨.selectQueueStatus evidence.dispatchId, .ok (some (seen, workerId))⟩ ∈ h ∧
      selected h evidence.dispatchId = some seen ∧ seen ≠ .completed ∧ seen ≠ .cancelled
  | .insertQueueItemOnce item => (∃ fromId toId task payload key priority,
      q = .dispatchTask fromId toId task payload key priority) ∧ item.status = .pending ∧
      item.steeringInstructions = []
  | .steerQueueItemOnce lead d guidance priority =>
      (∃ g, q = .steerTask lead d g ∧ guidance = some g ∧ priority = none) ∨
      ∃ p, q = .reprioritizeTask lead d p ∧ guidance = none ∧ priority = some p
  | .cancelActiveQueueItem d lead reason => q = .cancelTask lead d reason
  | _ => True

def Expected : (o : Op F) → Except Error o.Ret → Prop
  | .loadQueueItem d, .ok (some item) => item.dispatchId = d
  | .listQueueByTeam _, .ok items => (items.map (·.dispatchId)).Nodup
  | .markTaskResuming d, .ok item => item.dispatchId = d ∧ item.status = .running
  | _, _ => True

variable (F) in
abbrev protocol : Protocol (sig F) Error := .ofHistory Allowed Expected

def Outcome : Request F → History F → Except Error (Response F) → Prop
  | .steerTask lead d g, h, .ok _ =>
    ∃ item, ⟨.steerQueueItemOnce lead d (some g) none, .ok item⟩ ∈ h
  | .cancelTask lead d reason, h, .ok _ =>
    ∃ item, ⟨.cancelActiveQueueItem d lead reason, .ok item⟩ ∈ h
  | .submitWorkerHandoff submitted _, h, .ok _ => ∃ teamId evidence workerId,
    evidence.dispatchId = submitted.dispatchId ∧
    ⟨.finalizeHandoff teamId evidence (handoffStatus submitted) workerId, .ok ()⟩ ∈ h
  | .submitWorkerHandoff _ _, h, .error _ =>
    ∀ teamId evidence status workerId,
      ⟨.finalizeHandoff teamId evidence status workerId, .ok ()⟩ ∉ h
  | _, _, _ => True

def Op.quiet : Op F → Bool
  | .loadQueueItem _ | .listQueueByTeam _ | .insertQueueItemOnce _ | .steerQueueItemOnce _ _ _ _
  | .cancelActiveQueueItem _ _ _ | .saveQueueItem _ | .markTaskResuming _
  | .selectQueueStatus _ | .finalizeHandoff _ _ _ _ | .dispatchTaskToWorker _ _ _ => false
  | _ => true

abbrev Quiet (o : Op F) : Prop := o.quiet = true

def Op.reads : Op F → Bool
  | .createTeamWithLeadOnce _ _ _ | .registerSingleWorkerOnce _ _ _ _
  | .registerWorkerBatchOnce _ _ _ _ | .saveSession _ | .insertQueueItemOnce _
  | .steerQueueItemOnce _ _ _ _ | .cancelActiveQueueItem _ _ _ | .saveQueueItem _
  | .markTaskResuming _ | .finalizeHandoff _ _ _ _ | .saveCheckpoint _ | .resumeWorker _
  | .spawnWorker _ _ | .dispatchTaskToWorker _ _ _ => false
  | _ => true

abbrev Looks (o : Op F) : Prop := o.quiet = true ∧ o.reads = true

def Op.inspects : Op F → Bool
  | .loadSession _ | .loadWorktree _ | .loadLatestCheckpoint _ | .pathExists _ | .isDir _
  | .fileSize _ | .gitHead _ => true
  | _ => false

abbrev Inspects (o : Op F) : Prop := o.inspects = true

def Op.consults : Op F → Bool
  | .now | .getAction _ | .isActionForContext _ _ _ _ _ | .isActionConsumed _
  | .requestCommandApproval _ _ _ _ => true
  | _ => false

abbrev Consults (o : Op F) : Prop := o.consults = true

section Steps

variable {q : Request F} {h h' : History F} {d : String} {o : Op F} {r : Except Error o.Ret}
variable {α β : Type} {Q : (protocol F).Mode → Except Error β → Prop}

theorem allowed_of_quiet (ho : Quiet o) : Allowed q h o := by
  cases o <;> trivial

theorem snapshot_quiet (ho : Quiet o) : snapshot (h ++ [⟨o, r⟩]) d = snapshot h d := by
  rw [snapshot_snoc]
  cases o <;> first | (cases r <;> rfl) | cases ho

theorem claimed_snoc (hc : Claimed d h) (e : Event (sig F) Error) : Claimed d (h ++ [e]) :=
  let ⟨item, hi⟩ := hc
  ⟨item, List.mem_append_left _ hi⟩

theorem released_snoc_inv {e : Event (sig F) Error} (hr : Released d (h ++ [e])) :
    Released d h ∨ ∃ item, e = ⟨.saveQueueItem item, .ok ()⟩ ∧ item.dispatchId = d ∧
      item.status ≠ .running := by
  obtain ⟨item, hi, hd, hst⟩ := hr
  rcases List.mem_append.mp hi with hi | hi
  · exact .inl ⟨item, hi, hd, hst⟩
  · exact .inr ⟨item, (List.mem_singleton.mp hi).symm, hd, hst⟩

theorem follows_perform (o : Op F) {f : o.Ret → Call F β} (ha : Allowed q h o)
    (hok : ∀ a, Expected o (.ok a) → (f a).Follows (protocol F) Q (q, h ++ [⟨o, .ok a⟩]))
    (herr : ∀ e, Q (q, h ++ [⟨o, .error e⟩]) (.error e)) :
    ((perform o).bind f).Follows (protocol F) Q (q, h) :=
  (Proc.follows_op_bind ..).mpr ⟨ha, hok, fun e _ => herr e⟩

theorem follows_last (o : Op F) {Q : (protocol F).Mode → Except Error o.Ret → Prop}
    (ha : Allowed q h o) (hr : ∀ r, Expected o r → Q (q, h ++ [⟨o, r⟩]) r) :
    (perform o).Follows (protocol F) Q (q, h) := by
  refine ⟨ha, ?_⟩
  rintro (e | a) hexp
  · exact hr (.error e) hexp
  · exact hr (.ok a) hexp

theorem Quiet.follows {p : Call F α} (hp : p.Only Quiet)
    {I : Request F → History F → Prop} (hI : I q h)
    (hkeep : ∀ h o r, Quiet o → I q h → I q (h ++ [⟨o, r⟩])) :
    p.Follows (protocol F) (fun m _ => m.1 = q ∧ I q m.2) (q, h) := by
  refine hp.follows (I := fun m : (protocol F).Mode => m.1 = q ∧ I q m.2) ⟨rfl, hI⟩ ?_
  rintro ⟨q', h'⟩ o ⟨rfl, hI⟩ ho
  exact ⟨allowed_of_quiet ho, fun r _ => ⟨rfl, hkeep _ o r ho hI⟩⟩

theorem Quiet.follows_bind {p : Call F α} {f : α → Call F β} (hp : p.Only Quiet)
    {I : Request F → History F → Prop} (hI : I q h)
    (hkeep : ∀ h o r, Quiet o → I q h → I q (h ++ [⟨o, r⟩]))
    (hok : ∀ a h, I q h → (f a).Follows (protocol F) Q (q, h))
    (herr : ∀ e h, I q h → Q (q, h) (.error e)) : (p.bind f).Follows (protocol F) Q (q, h) := by
  refine (Quiet.follows hp hI hkeep).bind ?_ ?_
  · rintro ⟨_, h'⟩ a ⟨rfl, hI⟩
    exact hok a h' hI
  · rintro ⟨_, h'⟩ e ⟨rfl, hI⟩
    exact herr e h' hI

end Steps

end SubagentBridge.Supervisor
