import SubagentBridge.Library.Service
import SubagentBridge.Recovery.Inspection
import SubagentBridge.Recovery.ResumeExclusion

/-! A resumption that ends before it has got any work done: what becomes of its claim. -/

namespace SubagentBridge.Supervisor

open Library Domain TeamStore

variable {F : Type} {B : Builtins F}

def viewed (h : History F) (d : String) : Option QueueTaskStatus := (snapshot h d).map (·.status)

def Failed (h : History F) : Prop := ∃ e ∈ h, ∃ err, e.ans = .error err

def Refused (h : History F) : Prop := ∃ workerId, ⟨.resumeWorker workerId, .ok false⟩ ∈ h

/-- The worker has reported a completed step, which it only does for a TASK that it was sent. -/
def Op.achieves : (o : Op F) → Except Error o.Ret → Bool
  | .dispatchTaskToWorker _ _ _, .ok res => (fetch res "status").text = some "COMPLETED"
  | _, _ => false

abbrev Achieves (o : Op F) (r : Except Error o.Ret) : Prop := o.achieves r = true

section Walk

variable {V : View F} {q : Request F} {h : History F} {base item : QueueItem F} {L : Prop}
variable {α β : Type}

def Idle (V : View F) (o : Op F) (r : Except Error o.Ret) : Prop :=
  Expected o r ∧ (Inspects o → ∀ a, r = .ok a → V.seen o = .ok a) ∧ ¬ Achieves o r

abbrev idle (V : View F) : Protocol (sig F) Error :=
  .ofHistory (fun (_ : Request F) _ _ => True) (Idle V)

structure Waiting (base : QueueItem F) (q : Request F) (h : History F) : Prop where
  held : Held base q h
  accepted : ¬ Refused h
  unfailed : ¬ Failed h

theorem refused_snoc {e : Event (sig F) Error} (he : ∀ workerId, e.op ≠ .resumeWorker workerId) :
    Refused (h ++ [e]) ↔ Refused h := by
  refine exists_congr fun workerId => ⟨fun hm => ?_, fun hm => List.mem_append_left _ hm⟩
  rcases List.mem_append.mp hm with hm | hm
  · exact hm
  · exact absurd (congrArg Event.op (List.mem_singleton.mp hm)).symm (he workerId)

theorem unfailed_snoc {o : Op F} {a : o.Ret} (hf : ¬ Failed h) :
    ¬ Failed (h ++ [⟨o, .ok a⟩]) := by
  rintro ⟨e, he, err, herr⟩
  rcases List.mem_append.mp he with he | he
  · exact hf ⟨e, he, err, herr⟩
  · obtain rfl := List.mem_singleton.mp he
    cases herr

theorem Waiting.quiet {o : Op F} {a : o.Ret} (hw : Waiting base q h) (ho : Quiet o)
    (hr : ∀ workerId, o ≠ .resumeWorker workerId) : Waiting base q (h ++ [⟨o, .ok a⟩]) :=
  ⟨hw.held.quiet ho, fun hh => hw.accepted ((refused_snoc hr).mp hh), unfailed_snoc hw.unfailed⟩

theorem Waiting.inspected {o : Op F} {a : o.Ret} (hw : Waiting base q h) (ho : Inspects o) :
    Waiting base q (h ++ [⟨o, .ok a⟩]) :=
  hw.quiet ho.quiet fun _ he => by subst he; cases ho

theorem Waiting.consulted {o : Op F} {a : o.Ret} (hw : Waiting base q h) (ho : Consults o) :
    Waiting base q (h ++ [⟨o, .ok a⟩]) :=
  hw.quiet ho.quiet fun _ he => by subst he; cases ho

theorem Held.viewed (hh : Held base q h) : viewed h base.dispatchId = some .running := by
  obtain ⟨s, hs, hrun, -⟩ := hh.view
  rw [Supervisor.viewed, hs, Option.map_some, hrun]

theorem failed_snoc (h : History F) (o : Op F) (e : Error) : Failed (h ++ [⟨o, .error e⟩]) :=
  ⟨⟨o, .error e⟩, by simp, e, rfl⟩

/-- How the call ends: it has given up its claim, or it raises with the claim taken, after an
operation that failed or because of what it read. -/
def Concluded (d : String) (L : Prop) (h : History F) : Except Error α → Prop
  | .ok _ => viewed h d ≠ some .running ∧ ¬ Failed h ∧ (Refused h ∨ L)
  | .error _ => viewed h d = some .running ∧ (Failed h ∨ ¬ Refused h ∧ ¬ L)

/-- `p`, started with the claim, ends as `Concluded` says. -/
abbrev Settles (V : View F) (base : QueueItem F) (L : Prop) (q : Request F) (h : History F)
    (p : Call F α) : Prop :=
  p.Follows (idle V) (fun m r => Concluded base.dispatchId L m.2 r) (q, h)

theorem Held.failed {o : Op F} {e : Error} (hh : Held base q (h ++ [⟨o, .error e⟩])) :
    Concluded base.dispatchId L (h ++ [⟨o, .error e⟩]) (.error e : Except Error α) :=
  ⟨hh.viewed, .inl (failed_snoc h o e)⟩

theorem Waiting.broken {e : Error} (hw : Waiting base q h) (hL : ¬ L) :
    Concluded base.dispatchId L h (.error e : Except Error α) :=
  ⟨hw.held.viewed, .inr ⟨hw.accepted, hL⟩⟩

/-! ### The parts of a resumption -/

theorem Waiting.settles_raise (hw : Waiting base q h) (hL : ¬ L) (e : Error) :
    Settles V base L q h (.raise e : Call F α) :=
  Waiting.broken (e := e) (α := α) hw hL

theorem Waiting.settles_perform (hw : Waiting base q h) {o : Op F} (ho : Quiet o)
    (hr : ∀ workerId, o ≠ .resumeWorker workerId) {f : o.Ret → Call F β}
    (hf : ∀ a h, Waiting base q h → Settles V base L q h (f a)) :
    Settles V base L q h ((perform o).bind f) :=
  (Proc.follows_op_bind ..).mpr
    ⟨trivial, fun a _ => hf a _ (hw.quiet ho hr), fun _ _ => (hw.held.quiet ho).failed⟩

theorem Waiting.settles_reads (hw : Waiting base q h) {p : Call F α} {f : α → Call F β}
    {P : Prop} {v : α} (hfinds : p.Finds V.seen P v) (hp : p.Only Inspects) (hs : p.Strict)
    (hf : ∀ h, P → Waiting base q h → Settles V base L q h (f v))
    (hbreak : ¬ P → ¬ L) : Settles V base L q h (p.bind f) := by
  apply hfinds.follows_bind hp hs (fun _ _ _ => trivial)
  · exact fun o a ho ha => ha.2.1 ho a rfl
  · exact hw
  · exact fun h o a ho hw => hw.inspected ho
  · exact hf
  · exact fun h e hP hw => hw.broken (hbreak hP)
  · exact fun h o e ho hw => (hw.held.quiet ho.quiet).failed

theorem Waiting.settles_consults (hw : Waiting base q h) {p : Call F α} {f : α → Call F β}
    (hp : p.Only Consults) (hs : p.Smooth)
    (hf : ∀ a h, Waiting base q h → Settles V base L q h (f a)) :
    Settles V base L q h (p.bind f) := by
  apply hs.follows_bind hp (fun _ _ _ => trivial) hw
  · exact fun h o a ho hw => hw.consulted ho
  · exact hf
  · exact fun h o e ho hw => (hw.held.quiet ho.quiet).failed

theorem Held.unsaved (hh : Held base q h) (item : QueueItem F) (e : Error) :
    Held base q (h ++ [⟨.saveQueueItem item, .error e⟩]) where
  request := hh.request
  holds := by
    refine ⟨claimed_snoc hh.holds.1 _, fun hr => ?_⟩
    rcases released_snoc_inv hr with hr | ⟨item', he, -⟩
    · exact hh.holds.2 hr
    · cases (Event.mk.inj he).2
  view := by
    rw [snapshot_snoc]
    exact hh.view

theorem Waiting.settles_save (hw : Waiting base q h) (hi : SameTask base item)
    (hst : item.status = .running) {f : Unit → Call F β}
    (hf : ∀ h, Waiting base q h → Settles V base L q h (f ())) :
    Settles V base L q h ((perform (.saveQueueItem item)).bind f) := by
  refine (Proc.follows_op_bind ..).mpr
    ⟨trivial, fun _ _ => hf _ ⟨hw.held.saved hi hst, ?_, unfailed_snoc hw.unfailed⟩, ?_⟩
  · exact fun hh => hw.accepted ((refused_snoc (by simp)).mp hh)
  · exact fun e _ => (hw.held.unsaved item e).failed

theorem viewed_saved (h : History F) (item : QueueItem F) (u : Unit) :
    Supervisor.viewed (h ++ [⟨.saveQueueItem item, .ok u⟩]) item.dispatchId = some item.status := by
  simp [Supervisor.viewed, shown]

theorem Waiting.settles_release (hw : Waiting base q h) (hi : SameTask base item)
    (hst : item.status ≠ .running) (hL : L) {f : Unit → Call F β} {a : β} (hf : f () = .ret a) :
    Settles V base L q h ((perform (.saveQueueItem item)).bind f) := by
  refine (Proc.follows_op_bind ..).mpr ⟨trivial, fun _ _ => ?_, ?_⟩
  · rw [hf]
    refine ⟨?_, unfailed_snoc hw.unfailed, .inr hL⟩
    rw [← hi.dispatchId, viewed_saved]
    simpa using hst
  · exact fun e _ => (hw.held.unsaved item e).failed

theorem Waiting.settles_dispatch (hw : Waiting base q h) {workerId taskId : String}
    {payload : Dict String (Json F)} {f : Dict String (Json F) → Call F β}
    (hf : ∀ res h, (fetch res "status").text ≠ some "COMPLETED" → Waiting base q h →
      Settles V base L q h (f res)) :
    Settles V base L q h ((perform (.dispatchTaskToWorker workerId taskId payload)).bind f) := by
  refine (Proc.follows_op_bind ..).mpr
    ⟨trivial, fun res hres => hf res _ (by simpa [Op.achieves] using hres.2.2)
      ⟨hw.held.dispatched .., ?_, ?_⟩, fun e _ => ?_⟩
  · exact fun hh => hw.accepted ((refused_snoc (by simp)).mp hh)
  · exact unfailed_snoc hw.unfailed
  · exact (hw.held.dispatched ..).failed

variable [FloatInt F]

omit [FloatInt F] in
theorem smooth_needsApproval (workerId taskId : String) (command : List String) (path : String)
    (action : Option ApprovalAction) :
    (needsApproval (F := F) workerId taskId command path action).Smooth := by
  cases action with
  | none => trivial
  | some action =>
    rw [needsApproval]
    split
    · trivial
    · apply (Proc.smooth_op (S := sig F) _).bind
      intro fits
      split
      · split
        · exact Proc.smooth_op (S := sig F) _
        · trivial
      · trivial

theorem smooth_namedAction (actionId : Json F) : (namedAction actionId).Smooth := by
  rw [namedAction]
  split
  · exact Proc.smooth_op (S := sig F) _
  · trivial

variable {R : Resumption F}

theorem Waiting.settles_actionFor (hw : Waiting base q h) (hi : SameTask base item)
    {taskId : String} {owner : Owner} {f : ApprovalAction × QueueItem F → Call F β}
    (hf : ∀ action item h, SameTask base item → Waiting base q h →
      Settles V base L q h (f (action, item))) :
    Settles V base L q h ((actionFor B R item taskId owner).bind f) := by
  simp only [actionFor, Proc.bind_eq, Proc.bind_assoc]
  apply hw.settles_consults (namedAction_consults _) (smooth_namedAction _)
  intro action h hw
  apply hw.settles_consults (needsApproval_consults ..) (smooth_needsApproval ..)
  intro fresh h hw
  split
  · exact hf _ _ _ hi hw
  · rw [Proc.bind_assoc]
    apply hw.settles_perform rfl (by simp)
    intro action h hw
    exact hf _ _ _ (hi.set _ _ _) hw

theorem Waiting.settles_approvals (hw : Waiting base q h) (hi : SameTask base item)
    {pending : List PendingAction} {commands : List (String × Owner)} (hL : L)
    {f : QueueItem F × List PendingAction × Option (Reply F) → Call F β}
    (hf : ∀ item pending h, SameTask base item → Waiting base q h →
      Settles V base L q h (f (item, pending, none)))
    (hreply : ∀ item pending reply, ∃ a, f (item, pending, some reply) = .ret a) :
    Settles V base L q h ((approvals B R item pending commands).bind f) := by
  induction commands generalizing item pending h with
  | nil => exact hf _ _ _ hi hw
  | cons c commands ih =>
    obtain ⟨taskId, owner⟩ := c
    rw [approvals, Proc.bind_eq, Proc.bind_assoc]
    apply hw.settles_actionFor hi
    intro action item h hi hw
    dsimp only
    split
    · exact ih hw hi
    split
    · exact ih hw hi
    simp only [Proc.bind_eq, Proc.bind_assoc]
    apply hw.settles_perform rfl (by simp)
    intro updatedAt h hw
    exact hw.settles_release (hi.update _ _ _) (by simp) hL (hreply _ _ _).choose_spec

theorem Waiting.settles_preflight (hw : Waiting base q h) (hi : SameTask base item)
    {completed : List (Json F)} {commands : List (String × Owner)} (hL : L)
    {f : QueueItem F × Option (Reply F) → Call F β}
    (hf : ∀ item h, SameTask base item → Waiting base q h →
      Settles V base L q h (f (item, none)))
    (hreply : ∀ item reply, ∃ a, f (item, some reply) = .ret a) :
    Settles V base L q h ((preflightCommandApprovals B R item completed commands).bind f) := by
  rw [preflightCommandApprovals]
  split
  · exact hf _ _ hi hw
  split
  · rw [Proc.bind_eq, Proc.bind_assoc]
    apply hw.settles_approvals hi hL
    · intro item pending h hi hw
      simp only [Proc.bind_eq, Proc.bind_assoc]
      apply hw.settles_perform rfl (by simp)
      intro updatedAt h hw
      cases pending with
      | nil =>
        simp only [Proc.bind_assoc]
        apply hw.settles_save (hi.update _ _ _) rfl
        intro h hw
        exact hf _ _ (hi.update _ _ _) hw
      | cons first others =>
        simp only [Proc.bind_assoc]
        exact hw.settles_release (hi.update _ _ _) (by simp) hL (hreply _ _).choose_spec
    · exact fun item pending reply => hreply item reply
  · rw [Proc.bind_eq, Proc.bind_assoc]
    exact hw.settles_release (hi.update _ _ _) (by simp) hL (hreply _ _).choose_spec

omit [FloatInt F] in
theorem Waiting.settles_executeSteps (hw : Waiting base q h) (hi : SameTask base item)
    {skipped completed : List (Json F)} {remaining : List Nat} {stepIdx tokens : Int} (hL : L) :
    Settles V base L q h
      (executeSteps B R skipped remaining item stepIdx tokens completed) := by
  cases remaining with
  | nil =>
    apply hw.settles_perform rfl (by simp)
    intro updatedAt h hw
    exact hw.settles_release (hi.update _ _ _) (by simp) hL rfl
  | cons i remaining =>
    apply hw.settles_dispatch
    intro res h hres hw
    rw [if_neg hres]
    apply hw.settles_perform rfl (by simp)
    intro updatedAt h hw
    exact hw.settles_release (hi.update _ _ _) (by simp) hL rfl

variable [FloatText F]

theorem Waiting.settles_executeWorkflow (hw : Waiting base q h) (hi : SameTask base item)
    {count : Nat} {remaining : List Nat} {completed : List (Json F)}
    (hL : L ↔ Bindable B R item remaining) :
    Settles V base L q h (executeWorkflow B R item count remaining completed) := by
  rw [executeWorkflow]
  split
  next hmarker =>
    exact hw.settles_release (hi.update _ _ _) (by simp) (hL.mpr (.inl hmarker)) rfl
  next hmarker =>
    have hnames : L ↔ ∃ commands, commandSteps B item [] 0 remaining = .ok commands := by
      rw [hL, Bindable, commandSteps_ok, or_iff_right hmarker]
      simp
    cases hc : commandSteps B item [] 0 remaining with
    | error e =>
      rw [hc] at hnames
      exact hw.settles_raise (by simp [hnames]) e
    | ok commands =>
      have hL : L := hnames.mpr ⟨commands, hc⟩
      apply hw.settles_preflight hi hL
      · intro item h hi hw
        apply hw.settles_perform rfl (by simp)
        intro updatedAt h hw
        apply hw.settles_save (hi.update _ _ _) rfl
        intro h hw
        exact hw.settles_executeSteps (hi.update _ _ _) hL
      · exact fun item reply => ⟨reply, rfl⟩

theorem Waiting.settles_resumeSteps (hw : Waiting base q h) (hi : SameTask base item)
    {steps : List (Dict String (Json F))} {completed : List (Json F)}
    (hL : L ↔ LegibleSteps B V R item steps completed) :
    Settles V base L q h (resumeSteps B R item steps completed) := by
  rw [LegibleSteps, undone] at hL
  rw [resumeSteps]
  refine hw.settles_reads (finds_uncheckpointed R _) (uncheckpointed_inspects R _)
    (strict_uncheckpointed R _) (fun h heffects hw => ?_) fun hbreak hl => hbreak ?_
  · rw [and_iff_right fun path hpath i hmem =>
      heffects path hpath _ (List.mem_map_of_mem hmem)] at hL
    simp only [Proc.bind_eq, List.isEmpty_iff]
    split
    next hnone =>
      rw [if_pos hnone] at hL
      refine hw.settles_reads (finds_missingEvidence R _ steps) (missingEvidence_inspects R _ _)
        (strict_missingEvidence R _ _) (fun h hevidence hw => ?_) fun hbreak hl =>
          hbreak (hL.mp hl).1
      split
      next hmissing =>
        apply hw.settles_executeWorkflow hi
        exact hL.trans ⟨fun hl => hl.2 hmissing, fun hl => ⟨hevidence, fun _ => hl⟩⟩
      next hmissing =>
        apply hw.settles_perform rfl (by simp)
        intro updatedAt h hw
        exact hw.settles_release (hi.update _ _ _) (by simp)
          (hL.mpr ⟨hevidence, fun hun => absurd hun hmissing⟩) rfl
    next hsome =>
      rw [if_neg hsome] at hL
      exact hw.settles_executeWorkflow hi hL
  · intro path hpath step hstep
    obtain ⟨i, hmem, rfl⟩ := List.mem_map.mp hstep
    exact (hL.mp hl).1 path hpath i hmem

omit [FloatInt F] [FloatText F] in
theorem Waiting.settles_executeInstruction (hw : Waiting base q h) (hi : SameTask base item)
    (hL : L) : Settles V base L q h (executeInstruction R item) := by
  apply hw.settles_perform rfl (by simp)
  intro updatedAt h hw
  apply hw.settles_save (hi.update _ _ _) rfl
  intro h hw
  apply hw.settles_dispatch
  intro res h hres hw
  rw [if_neg hres]
  apply hw.settles_perform rfl (by simp)
  intro updatedAt h hw
  exact hw.settles_release ((hi.update _ _ _).update _ _ _) (by simp) hL rfl

omit [FloatText F] in
theorem Waiting.settles_resumeInstruction (hw : Waiting base q h) (hi : SameTask base item)
    {completed : List (Json F)} (hL : L ↔ LegibleCompletion V R (expectedArtifacts item)) :
    Settles V base L q h (resumeInstruction B R item completed) := by
  refine hw.settles_reads (finds_completedBefore R _) (completedBefore_inspects R _)
    (strict_completedBefore R _) (fun h hlegible hw => ?_) fun hbreak hl => hbreak (hL.mp hl)
  have hL := hL.mpr hlegible
  split
  next =>
    apply hw.settles_perform rfl (by simp)
    intro updatedAt h hw
    exact hw.settles_release (hi.update _ _ _) (by simp) hL rfl
  next =>
    split
    next =>
      apply hw.settles_preflight hi hL
      · exact fun item h hi hw => hw.settles_executeInstruction hi hL
      · exact fun item reply => ⟨reply, rfl⟩
    next => exact hw.settles_executeInstruction hi hL

theorem Waiting.settles_resumeClaimed (hw : Waiting base q h) (hi : SameTask base item)
    {trusted : Bool} {session : AgentSession F}
    (hL : L ↔ LegibleTask B V (V.resumption trusted item session) item) :
    Settles V base L q h (resumeClaimed B trusted item session) := by
  rw [LegibleTask] at hL
  refine hw.settles_reads (finds_worktreeOf _ session) (worktreeOf_inspects ..)
    (strict_worktreeOf ..) (fun h _ hw => ?_) fun hbreak => absurd trivial hbreak
  refine hw.settles_reads (finds_commitOf _) (commitOf_inspects _) (strict_commitOf _)
    (fun h _ hw => ?_) fun hbreak => absurd trivial hbreak
  refine hw.settles_reads (finds_perform rfl) (inspects_perform _ rfl) (strict_perform _)
    (fun h _ hw => ?_) fun hbreak => absurd trivial hbreak
  change Settles V base L q h ((completedSteps (V.resumption trusted item session) _).bind _)
  refine hw.settles_reads (finds_completedSteps _ _) (completedSteps_inspects _ _)
    (strict_completedSteps _ _) (fun h hrecord hw => ?_) fun hbreak hl => hbreak (hL.mp hl).1
  rw [and_iff_right hrecord] at hL
  split
  next steps hsteps =>
    simp only [hsteps] at hL
    split
    next hdicts => exact hw.settles_raise (by simp [hL, hdicts]) _
    next dicts hdicts =>
      apply hw.settles_resumeSteps hi
      rw [hL, hsteps]
      simp [hdicts, View.resumption]
  next hsteps =>
    apply hw.settles_resumeInstruction hi
    split at hL
    next steps hs => exact absurd hs (hsteps steps)
    next => exact hL

/-! ### Attaching the worker -/

omit [FloatInt F] [FloatText F]

/-- Attaching the worker has changed nothing that the rest of the call goes by. -/
structure SameWorker (V : View F) (workerId : String) (session session' : AgentSession F) :
    Prop where
  teamId : session'.teamId = session.teamId
  worktree : V.worktree workerId session' = V.worktree workerId session

theorem SameWorker.resumption {session session' : AgentSession F}
    (hs : SameWorker V item.toSessionId session session') (trusted : Bool) :
    V.resumption trusted item session' =
      { V.resumption trusted item session with session := session' } := by
  have hbound : ∀ commit (cp : WorkerCheckpoint F),
      decide (boundTo item session' commit cp) = decide (boundTo item session commit cp) :=
    fun commit cp => decide_eq_decide.mpr (by simp only [boundTo, hs.teamId])
  simp only [View.resumption, hs.worktree, hbound]

def View.assigned (V : View F) : Option (WorktreeAssignment F) → Option String
  | none => none
  | some wt =>
    let path := PurePath.ofString wt.worktreePath
    if V.there path && V.isDir path then some path.toString else none

theorem finds_worktreeDir (wt : Option (WorktreeAssignment F)) :
    (worktreeDir wt).Finds V.seen True (V.assigned wt) := by
  cases wt with
  | none => exact Proc.finds_ret none
  | some wt =>
    apply Proc.finds_op_bind rfl
    rw [View.assigned]
    cases V.there (.ofString wt.worktreePath) with
    | true => exact (finds_perform (o := .isDir _) rfl).then (Proc.finds_ret _)
    | false => exact (Proc.finds_ret false).then (Proc.finds_ret _)

theorem worktree_assigned {workerId : String} {session session' : AgentSession F}
    (hdir : session'.config.workingDir =
      (V.assigned (V.assignment workerId) <|> session.config.workingDir)) :
    V.worktree workerId session' = V.worktree workerId session := by
  rw [View.worktree, View.worktree, hdir]
  cases V.assignment workerId with
  | none => rfl
  | some wt =>
    cases hthere : V.there (.ofString wt.worktreePath) with
    | true => simp [hthere]
    | false => simp [View.assigned, hthere]

variable {workerId : String}

theorem Waiting.settles_session (hw : Waiting base q h) {f : AgentSession F → Call F β}
    (hmissing : V.session workerId = none → ¬ L)
    (hf : ∀ session h, V.session workerId = some session → Waiting base q h →
      Settles V base L q h (f session)) :
    Settles V base L q h ((sessionOf B workerId).bind f) := by
  rw [sessionOf, Proc.bind_eq, Proc.bind_assoc]
  refine hw.settles_reads (finds_perform rfl) (inspects_perform _ rfl) (strict_perform _)
    (fun h _ hw => ?_) fun hbreak => absurd trivial hbreak
  cases hs : V.session workerId with
  | none => exact hw.settles_raise (hmissing hs) _
  | some session => exact hf session h hs hw

theorem Waiting.settles_spawn (hw : Waiting base q h) {f : AgentSession F → Call F β}
    (hmissing : V.session workerId = none → ¬ L)
    (hf : ∀ session session' h, V.session workerId = some session →
      SameWorker V workerId session session' → Waiting base q h →
      Settles V base L q h (f session')) :
    Settles V base L q h ((resumeWorkerFromCheckpoint B workerId true).bind f) := by
  rw [resumeWorkerFromCheckpoint, Proc.bind_eq, Proc.bind_assoc]
  refine hw.settles_reads (finds_perform rfl) (inspects_perform _ rfl) (strict_perform _)
    (fun h _ hw => ?_) fun hbreak => absurd trivial hbreak
  cases hs : V.session workerId with
  | none => exact hw.settles_raise (hmissing hs) _
  | some session =>
    simp only [Proc.bind_eq, Proc.bind_assoc, if_true]
    refine hw.settles_reads (finds_perform rfl) (inspects_perform _ rfl) (strict_perform _)
      (fun h _ hw => ?_) fun hbreak => absurd trivial hbreak
    refine hw.settles_reads (finds_perform rfl) (inspects_perform _ rfl) (strict_perform _)
      (fun h _ hw => ?_) fun hbreak => absurd trivial hbreak
    refine hw.settles_reads (finds_worktreeDir _) (worktreeDir_inspects _) (strict_worktreeDir _)
      (fun h _ hw => ?_) fun hbreak => absurd trivial hbreak
    apply hw.settles_perform rfl (by simp)
    intro record h hw
    apply hw.settles_perform rfl (by simp)
    intro updatedAt h hw
    apply hw.settles_perform rfl (by simp)
    intro _ h hw
    exact hf session _ h hs ⟨rfl, worktree_assigned rfl⟩ hw

theorem Waiting.asked (hw : Waiting base q h) :
    Waiting base q (h ++ [⟨.resumeWorker workerId, .ok true⟩]) := by
  refine ⟨hw.held.quiet rfl, fun ⟨w, hm⟩ => ?_, unfailed_snoc hw.unfailed⟩
  rcases List.mem_append.mp hm with hm | hm
  · exact hw.accepted ⟨w, hm⟩
  · cases List.mem_singleton.mp hm

theorem Waiting.settles_attach (hw : Waiting base q h) {f : Option (AgentSession F) → Call F β}
    (hmissing : V.session workerId = none → ¬ L)
    (hf : ∀ session session' h, V.session workerId = some session →
      SameWorker V workerId session session' → Waiting base q h →
      Settles V base L q h (f (some session')))
    (hrefused : ∀ h, Held base q h → Refused h → ¬ Failed h → Settles V base L q h (f none)) :
    Settles V base L q h ((attachWorker B workerId).bind f) := by
  have hsession : ∀ h, Waiting base q h → Settles V base L q h
      ((sessionOf B workerId).bind fun session => f (some session)) := fun h hw =>
    hw.settles_session hmissing fun session h hs hw => hf session session h hs ⟨rfl, rfl⟩ hw
  rw [attachWorker, Proc.bind_eq, Proc.bind_assoc]
  apply hw.settles_perform rfl (by simp)
  intro dispatchable h hw
  split
  · exact (Proc.bind_assoc ..).symm ▸ hsession h hw
  · rw [Proc.bind_eq, Proc.bind_assoc]
    apply hw.settles_perform rfl (by simp)
    intro attached h hw
    split
    · rw [Proc.bind_eq, Proc.bind_assoc]
      refine (Proc.follows_op_bind ..).mpr ⟨trivial, fun safe _ => ?_, fun e _ => ?_⟩
      · cases safe with
        | true =>
          rw [if_pos rfl, Proc.bind_eq, Proc.bind_assoc]
          exact hsession _ hw.asked
        | false =>
          exact hrefused _ (hw.held.quiet rfl) ⟨workerId, by simp⟩ (unfailed_snoc hw.unfailed)
      · exact (hw.held.quiet rfl).failed
    · rw [Proc.bind_eq, Proc.bind_assoc]
      exact hw.settles_spawn hmissing hf

end Walk

/-! ## The whole call -/

def taken (h : History F) (d : String) : Option (QueueItem F) :=
  h.findSome? fun e => match e with
    | ⟨.markTaskResuming d', .ok item⟩ => if d' = d then some item else none
    | _ => none

section Whole

variable {q : Request F} {h h' : History F} {d : String} {item : QueueItem F}

theorem taken_mono (hp : h <+: h') (ht : taken h d = some item) : taken h' d = some item := by
  obtain ⟨t, rfl⟩ := hp
  rw [taken, List.findSome?_append, ← taken, ht]
  rfl

theorem viewed_snoc {e : Event (sig F) Error} :
    viewed (h ++ [e]) d = ((shown d e.op e.ans).map (·.status)).or (viewed h d) := by
  rw [viewed, snapshot_snoc, viewed]
  cases shown d e.op e.ans <;> rfl

theorem taken_snoc {e : Event (sig F) Error} (ht : taken h d = none) :
    taken (h ++ [e]) d = taken [e] d := by
  rw [taken, List.findSome?_append, ← taken, ht]
  rfl

theorem taken_of_claimed (hc : Claimed d h) : ∃ item, taken h d = some item := by
  cases ht : taken h d with
  | some item => exact ⟨item, rfl⟩
  | none =>
    obtain ⟨item, hi⟩ := hc
    rw [taken, List.findSome?_eq_none_iff] at ht
    simpa using ht _ hi

theorem claimed_of_taken (ht : taken h d = some item) :
    ⟨.markTaskResuming d, .ok item⟩ ∈ h := by
  obtain ⟨e, he, hf⟩ := List.exists_of_findSome?_eq_some ht
  split at hf
  next d' item' =>
    split at hf
    next hd =>
      obtain rfl := hd
      obtain rfl := Option.some.inj hf
      exact he
    next => cases hf
  next => cases hf

theorem Fresh.taken (hf : Fresh d q h) : taken h d = none := by
  rw [Supervisor.taken, List.findSome?_eq_none_iff]
  intro e he
  split
  next d' item =>
    rw [if_neg]
    rintro rfl
    exact (hf _ he).1 rfl
  next => rfl

theorem Fresh.taken_claim (hf : Fresh d q h) :
    Supervisor.taken (h ++ [⟨.markTaskResuming d, .ok item⟩]) d = some item := by
  rw [Supervisor.taken, List.findSome?_append, ← Supervisor.taken, hf.taken]
  simp

theorem Fresh.taken_failed (hf : Fresh d q h) {e : Error} :
    Supervisor.taken (h ++ [⟨.markTaskResuming d, .error e⟩]) d = none := by
  rw [Supervisor.taken, List.findSome?_append, ← Supervisor.taken, hf.taken]
  rfl

variable (B) [FloatText F] [FloatInt F] in
def Resumable (V : View F) (trusted : Bool) (item : QueueItem F) : Prop :=
  ∃ session, V.session item.toSessionId = some session ∧
    LegibleTask B V (V.resumption trusted item session) item

variable {V : View F} {trusted : Bool} [FloatText F] [FloatInt F]

theorem settles_claimed (hw : Waiting item q h) :
    Settles V item (Resumable B V trusted item) q h
      ((attachWorker B item.toSessionId).bind fun session => match session with
        | none => (perform .now).bind fun updatedAt =>
          (perform (.saveQueueItem { item with status := .dispatched, updatedAt })).bind fun _ =>
            .ret [("status", .str "RECOVERY_BLOCKED"), ("dispatch_id", .str d),
              ("reason", .str ("Attached worker is not safe to resume; outstanding result or " ++
                "operator reconciliation required"))]
        | some session => resumeClaimed B trusted item session) := by
  have hsame : SameTask item item := ⟨rfl, rfl, rfl, rfl, rfl⟩
  apply hw.settles_attach
  · rintro hs ⟨session, hs', -⟩
    cases hs.symm.trans hs'
  · intro session session' h hs hsw hw
    apply hw.settles_resumeClaimed hsame
    rw [hsw.resumption]
    constructor
    · rintro ⟨_, hs', hl⟩
      obtain rfl := Option.some.inj (hs.symm.trans hs')
      exact hl
    · exact fun hl => ⟨session, hs, hl⟩
  · intro h hh hr hf
    refine (Proc.follows_op_bind ..).mpr
      ⟨trivial, fun updatedAt _ => ?_, fun e _ => (hh.quiet rfl).failed⟩
    have hh := hh.quiet (o := .now) (r := .ok updatedAt) rfl
    refine (Proc.follows_op_bind ..).mpr ⟨trivial, fun _ _ => ⟨?_, ?_, .inl ?_⟩, fun e _ => ?_⟩
    · rw [viewed_saved _ { item with status := .dispatched, updatedAt := updatedAt }]
      simp
    · exact unfailed_snoc (unfailed_snoc hf)
    · exact hr.imp fun _ hm => List.mem_append_left _ (List.mem_append_left _ hm)
    · exact (hh.unsaved _ e).failed

def Ended (B : Builtins F) (V : View F) (trusted : Bool) (d : String) (h : History F)
    (r : Except Error (Reply F)) : Prop :=
  ∀ item, taken h d = some item → Concluded d (Resumable B V trusted item) h r

theorem ended_of_fresh {r : Except Error (Reply F)} (hf : Fresh d q h) :
    Ended B V trusted d h r := fun item ht => by
  rw [hf.taken] at ht
  cases ht

omit [FloatText F] [FloatInt F] in
theorem isOrphan_unasked (item : Option (QueueItem F)) :
    (isOrphan item).Only fun (o : Op F) => Quiet o ∧ ∀ workerId, o ≠ .resumeWorker workerId := by
  cases item with
  | none => trivial
  | some item =>
    refine Proc.only_op_bind ⟨rfl, by simp⟩ fun alive => ?_
    split
    · exact Proc.only_op_bind ⟨rfl, by simp⟩ fun _ => trivial
    · trivial

structure Unclaimed (d : String) (q : Request F) (h : History F) : Prop where
  fresh : Fresh d q h
  accepted : ¬ Refused h
  unfailed : ¬ Failed h

omit [FloatText F] [FloatInt F] in
theorem Fresh.quiet (hf : Fresh d q h) {o : Op F} {r : Except Error o.Ret} (ho : Quiet o) :
    Fresh d q (h ++ [⟨o, r⟩]) :=
  hf.snoc (fun he => by subst he; cases ho) fun item he => by subst he; cases ho

omit [FloatText F] [FloatInt F] in
theorem Unclaimed.quiet (hu : Unclaimed d q h) {o : Op F} {a : o.Ret}
    (ho : Quiet o ∧ ∀ workerId, o ≠ .resumeWorker workerId) :
    Unclaimed d q (h ++ [⟨o, .ok a⟩]) where
  fresh := hu.fresh.quiet ho.1
  accepted hr := hu.accepted ((refused_snoc ho.2).mp hr)
  unfailed := unfailed_snoc hu.unfailed

omit [FloatText F] [FloatInt F] in
theorem smooth_isOrphan (item : Option (QueueItem F)) : (isOrphan item).Smooth := by
  cases item with
  | none => trivial
  | some item =>
    apply (Proc.smooth_op (S := sig F) _).bind
    intro alive
    split
    · exact (Proc.smooth_op (S := sig F) _).bind fun _ => trivial
    · trivial

theorem resume_ends (d : String) (trusted : Bool) :
    (resumeTaskFromCheckpoint B d trusted).Follows (idle V)
      (fun m r => Ended B V trusted d m.2 r) (.resumeTask d trusted, []) := by
  have hload : ∀ r,
    Fresh d (.resumeTask d trusted) ([] ++ [⟨.loadQueueItem d, r⟩] : History F) := by
    simp [Fresh]
  refine (Proc.follows_op_bind ..).mpr
    ⟨trivial, fun preItem _ => ?_, fun e _ => ended_of_fresh (hload _)⟩
  refine (smooth_isOrphan preItem).follows_bind (I := Unclaimed d (.resumeTask d trusted))
    (isOrphan_unasked preItem) (fun _ _ _ => trivial) ⟨hload _, by simp [Refused], ?_⟩
    (fun h o a ho hu => hu.quiet ho) (fun orphan h hu => ?_)
    fun h o e ho hu => ended_of_fresh (hu.fresh.quiet ho.1)
  · exact unfailed_snoc (by simp [Failed])
  split
  · exact ended_of_fresh hu.fresh
  refine (Proc.follows_op_bind ..).mpr ⟨trivial, ?_, fun e _ item ht => ?_⟩
  · intro (item : QueueItem F) hans
    obtain ⟨rfl, hrun⟩ := hans.1
    have hw : Waiting item (.resumeTask item.dispatchId trusted)
        (h ++ [⟨.markTaskResuming item.dispatchId, .ok item⟩]) :=
      ⟨hu.fresh.held rfl hrun rfl, fun hr => hu.accepted ((refused_snoc (by simp)).mp hr),
        unfailed_snoc hu.unfailed⟩
    apply (settles_claimed hw).extends.mono
    rintro m r ⟨hsettled, hprefix⟩ item' ht
    have htaken := taken_mono hprefix hu.fresh.taken_claim
    obtain rfl := Option.some.inj (htaken.symm.trans ht)
    exact hsettled
  · rw [hu.fresh.taken_failed] at ht
    cases ht

end Whole

/-! ## The store -/

section Store

variable [LinearOrder F] [FloatText F] {d : String} {db₀ : Db F} {trusted : Bool}

variable (B) in
abbrev store : Runtime (sig F) Error where
  State := Db F
  World := World F
  possible _ _ _ := true
  exec := exec B.repr

structure Accounts (d : String) (db₀ : Db F) (m : (store B).Moment) : Prop where
  keyed : Keyed m.state
  answers : ∀ e ∈ m.history, Expected e.op e.ans
  before : taken m.history d = none → m.state.queue.get? d = db₀.queue.get? d
  readable : taken m.history d = none → ∀ x, ⟨.loadQueueItem d, .ok x⟩ ∈ m.history →
    ∀ row, db₀.queue.get? d = some row → ∃ item, rowToQueueItem row = .ok item
  claimed : ∀ item, taken m.history d = some item →
    statusOf m.state d = viewed m.history d ∧ statusOf db₀ d ≠ some .running

def Reads (d : String) (h : History F) (o : Op F) : Prop :=
  o = .markTaskResuming d → ∃ x, ⟨.loadQueueItem d, .ok x⟩ ∈ h

theorem accounts_start (hk : Keyed db₀) : Accounts (B := B) d db₀ ⟨db₀, []⟩ where
  keyed := hk
  answers := by simp
  before _ := rfl
  readable := by simp
  claimed := by simp [taken]

omit [LinearOrder F] [FloatText F] in
theorem writes_allowed {h : History F} {o : Op F} (ha : Allowed (.resumeTask d trusted) h o)
    (hw : o.writes = some d) :
    o = .markTaskResuming d ∨ Claimed d h ∧ ∃ item, o = .saveQueueItem item ∧
      item.dispatchId = d := by
  cases o with
  | markTaskResuming d' => exact .inl (by cases hw; rfl)
  | saveQueueItem item =>
    obtain ⟨s, -, -, -, hc⟩ := ha
    exact .inr ⟨hc.1.symm.trans (Option.some.inj hw) ▸ hc.2.1, item, rfl, Option.some.inj hw⟩
  | insertQueueItemOnce => obtain ⟨⟨_, _, _, _, _, _, hq⟩, -⟩ := ha; cases hq
  | steerQueueItemOnce => obtain ⟨_, hq, -⟩ | ⟨_, hq, -⟩ := ha <;> cases hq
  | cancelActiveQueueItem => cases ha
  | finalizeHandoff => obtain ⟨_, _, _, hq, -⟩ := ha; cases hq
  | _ => cases hw

variable {o : Op F} {w : World F} {m : (store B).Moment}

theorem row_unchanged {db : Db F} (hw : o.writes ≠ some d) :
    (exec B.repr o w db).2.queue.get? d = db.queue.get? d := by
  rcases row_exec B.repr o w db d with h | ⟨row, -, hc⟩
  · exact h
  · exact absurd hc.writes hw

theorem viewed_unchanged {db : Db F} {h : History F} (hk : Keyed db)
    (hw : o.writes ≠ some d) (hv : statusOf db d = viewed h d) :
    statusOf (exec B.repr o w db).2 d = viewed (h ++ [⟨o, (exec B.repr o w db).1⟩]) d := by
  rw [viewed_snoc, statusOf, row_unchanged hw, ← statusOf]
  cases hs : shown d o (exec B.repr o w db).1 with
  | none => simpa using hv
  | some item =>
    rcases shows_exec hk hs with ⟨rfl, hd⟩ | ⟨row, hrow, hshow⟩
    · exact absurd (congrArg some hd) hw
    · cases hshow with
      | read hread => simp [statusOf_of_get? hrow, status_of_read hread]
      | @marked d' _ hread hst =>
        have hexp : Expected (.markTaskResuming d') (exec B.repr (.markTaskResuming d') w db).1 :=
          expected_exec hk
        generalize (exec B.repr (.markTaskResuming d') w db).1 = r at hs hexp
        cases r with
        | error e => cases hs
        | ok item =>
          have hd : item.dispatchId = d := by
            by_contra hne
            simp [shown, hne] at hs
          exact absurd (congrArg some (hexp.1.symm.trans hd)) hw

theorem mark_error {db : Db F} {e : Error}
    (h : (exec B.repr (.markTaskResuming d) w db).1 = .error e)
    (hread : ∀ row, db.queue.get? d = some row → ∃ item, rowToQueueItem row = .ok item) :
    (exec B.repr (.markTaskResuming d) w db).2 = db := by
  rw [exec] at h ⊢
  split
  next => rfl
  next hf =>
    rw [if_neg hf] at h
    rw [run, Db.markTaskResuming] at h ⊢
    cases hrow : db.queue.get? d with
    | none => rfl
    | some row =>
      obtain ⟨item, hitem⟩ := hread row hrow
      simp only [hrow, hitem] at h ⊢
      split at h
      next => simp
      next => simp
      next => simp
      next => cases h

theorem load_ok {db : Db F} {x : Option (QueueItem F)}
    (h : (exec B.repr (.loadQueueItem d) w db).1 = .ok x) {row : QueueRow F}
    (hrow : db.queue.get? d = some row) : ∃ item, rowToQueueItem row = .ok item := by
  rw [exec] at h
  split at h
  next => cases h
  next =>
    rw [run, Db.loadQueueItem, hrow] at h
    cases hread : rowToQueueItem row with
    | ok item => exact ⟨item, rfl⟩
    | error e =>
      simp only [hread] at h
      cases h

theorem Accounts.expected (hacc : Accounts d db₀ m) (o : Op F) (w : World F) :
    Keyed (exec B.repr o w m.state).2 ∧
      ∀ e ∈ m.history ++ [⟨o, (exec B.repr o w m.state).1⟩], Expected e.op e.ans := by
  refine ⟨keyed_exec hacc.keyed, fun e he => ?_⟩
  rcases List.mem_append.mp he with he | he
  · exact hacc.answers e he
  · obtain rfl := List.mem_singleton.mp he
    exact expected_exec hacc.keyed

theorem Accounts.claim (hacc : Accounts d db₀ m) (ht : taken m.history d = none)
    (hload : ∃ x, ⟨.loadQueueItem d, .ok x⟩ ∈ m.history) :
    Accounts d db₀ ((store B).after (.markTaskResuming d) w m) := by
  obtain ⟨hkeyed, hanswers⟩ := hacc.expected (.markTaskResuming d) w
  have hold := hacc.before ht
  cases hr : (exec B.repr (.markTaskResuming d) w m.state).1 with
  | ok item =>
    obtain ⟨row, hrow, hst, row', hrow', hrun⟩ := mark_ok hr
    have hitem := hanswers ⟨.markTaskResuming d, .ok item⟩ (by rw [hr]; simp)
    have htaken : taken (m.history ++ [⟨.markTaskResuming d, .ok item⟩]) d = some item := by
      rw [taken_snoc ht]
      simp [taken]
    refine ⟨hkeyed, hanswers, ?_, ?_, ?_⟩
    all_goals rw [Runtime.after_history, Runtime.answer, hr]
    · exact fun hnone => absurd (hnone.symm.trans htaken) (by simp)
    · exact fun hnone => absurd (hnone.symm.trans htaken) (by simp)
    · refine fun _ _ => ⟨?_, ?_⟩
      · rw [viewed_snoc, Runtime.after_state, statusOf_of_get? hrow', hrun]
        simp [shown, hitem.1, hitem.2]
      · rw [hold] at hrow
        rw [statusOf_of_get? hrow]
        simpa using hst
  | error e =>
    have hsame := mark_error hr fun row hrow => by
      obtain ⟨x, hx⟩ := hload
      exact hacc.readable ht x hx row (hold ▸ hrow)
    have htaken : taken (m.history ++ [⟨.markTaskResuming d, .error e⟩]) d = none := by
      rw [taken_snoc ht]
      rfl
    refine ⟨hkeyed, hanswers, ?_, ?_, ?_⟩
    all_goals rw [Runtime.after_history, Runtime.answer, hr]
    · rw [Runtime.after_state, hsame]
      exact fun _ => hold
    · intro _ x hx
      simp only [List.mem_append, List.mem_singleton] at hx
      obtain hx | hx := hx
      · exact hacc.readable ht x hx
      · cases hx
    · exact fun item hsome => absurd (hsome.symm.trans htaken) (by simp)

omit [LinearOrder F] [FloatText F] in
theorem taken_other {h : History F} {r : Except Error o.Ret} (ho : o ≠ .markTaskResuming d) :
    taken (h ++ [⟨o, r⟩]) d = taken h d := by
  have hnone : taken [⟨o, r⟩] d = none := by
    rw [taken, List.findSome?_eq_none_iff]
    rintro e he
    obtain rfl := List.mem_singleton.mp he
    split
    next d' item heq =>
      rw [if_neg]
      rintro rfl
      exact ho (Event.mk.inj heq).1
    next => rfl
  rw [taken, List.findSome?_append, ← taken, ← taken, hnone, Option.or_none]

theorem Accounts.save (hacc : Accounts d db₀ m) {base item : QueueItem F}
    (ht : taken m.history d = some base) (hd : item.dispatchId = d) :
    Accounts d db₀ ((store B).after (.saveQueueItem item) w m) := by
  obtain ⟨hkeyed, hanswers⟩ := hacc.expected (.saveQueueItem item) w
  obtain ⟨hstatus, hfirst⟩ := hacc.claimed base ht
  have htaken : taken (m.history ++ [⟨.saveQueueItem item,
      (exec B.repr (.saveQueueItem item) w m.state).1⟩]) d = some base :=
    (taken_other (by simp)).trans ht
  refine ⟨hkeyed, hanswers, fun hnone => absurd (hnone.symm.trans htaken) nofun,
    fun hnone => absurd (hnone.symm.trans htaken) nofun, fun _ _ => ⟨?_, hfirst⟩⟩
  rw [Runtime.after_history, Runtime.after_state, Runtime.answer, viewed_snoc]
  subst hd
  dsimp only
  rw [exec]
  split
  next => exact hstatus
  next =>
    rw [run, Db.saveQueueItem, statusOf_setRow]
    cases m.state.queue.get? item.dispatchId <;> simp [shown, toRow, QueueRow.assign]

theorem Accounts.other (hacc : Accounts d db₀ m) (hw : o.writes ≠ some d) :
    Accounts d db₀ ((store B).after o w m) := by
  obtain ⟨hkeyed, hanswers⟩ := hacc.expected o w
  have htaken : ∀ r, taken (m.history ++ [⟨o, r⟩]) d = taken m.history d := fun r =>
    taken_other fun he => hw (by rw [he]; rfl)
  refine ⟨hkeyed, hanswers, ?_, ?_, ?_⟩
  all_goals rw [Runtime.after_history, htaken]
  · exact fun hnone => (row_unchanged hw).trans (hacc.before hnone)
  · intro hnone x hx row hrow
    rcases List.mem_append.mp hx with hx | hx
    · exact hacc.readable hnone x hx row hrow
    · obtain ⟨rfl, hr⟩ := Event.mk.inj (List.mem_singleton.mp hx)
      exact load_ok (eq_of_heq hr).symm ((hacc.before hnone).trans hrow)
  · intro item hsome
    obtain ⟨hstatus, hfirst⟩ := hacc.claimed item hsome
    exact ⟨viewed_unchanged hacc.keyed hw hstatus, hfirst⟩

theorem Accounts.step (hacc : Accounts d db₀ m)
    (ha : Allowed (.resumeTask d trusted) m.history o) (hr : Reads d m.history o) :
    Accounts d db₀ ((store B).after o w m) := by
  by_cases hw : o.writes = some d
  · obtain rfl | ⟨hc, item, rfl, hd⟩ := writes_allowed ha hw
    · cases ht : taken m.history d with
      | none => exact hacc.claim ht (hr rfl)
      | some item => exact absurd rfl (ha.2 _ (claimed_of_taken ht))
    · obtain ⟨base, ht⟩ := taken_of_claimed hc
      exact hacc.save ht hd
  · exact hacc.other hw

variable [FloatInt F]

theorem accounts_eval (hk : Keyed db₀) {ws : List (World F)} {r : Except Error (Reply F)}
    (he : (resumeTaskFromCheckpoint B d trusted).eval (store B) ws ⟨db₀, []⟩ = some (r, m)) :
    Accounts d db₀ m := by
  have hreads : (resumeTaskFromCheckpoint B d trusted).Follows
      (.ofHistory (fun (_ : Request F) => Reads d) Expected) (fun _ _ => True)
      (.resumeTask d trusted, []) := by
    refine (Proc.follows_op_bind ..).mpr ⟨nofun, fun x _ => ?_, fun _ _ => trivial⟩
    refine ((Proc.only_of_forall (A := fun _ => True) (fun _ => trivial) _).follows_history
      fun h' hh o _ _ => ⟨x, hh.subset (by simp)⟩).mono fun _ _ _ => trivial
  exact (((resumeTaskFromCheckpoint_follows d trusted).and_history hreads).eval
    (R := store B) (accounts_start hk) (fun o w m hacc ha =>
      ⟨hacc.step ha.1 ha.2, expected_exec hacc.keyed⟩) he).2

/-- A call that got no work done has given its claim up exactly if nothing failed, and the
worker was refused or all that the call went by could be read. -/
theorem claim_released (hk : Keyed db₀) {V : View F} {ws : List (World F)}
    {r : Except Error (Reply F)}
    (he : (resumeTaskFromCheckpoint B d trusted).eval (store B) ws ⟨db₀, []⟩ = some (r, m))
    (hview : ∀ e ∈ m.history, Inspects e.op → ∀ a, e.ans = .ok a → V.seen e.op = .ok a)
    (hidle : ∀ e ∈ m.history, ¬ Achieves e.op e.ans) :
    statusOf m.state d ≠ some .running ↔
      statusOf db₀ d ≠ some .running ∧ ∀ item, taken m.history d = some item →
        ¬ Failed m.history ∧ (Refused m.history ∨ Resumable B V trusted item) := by
  have hacc := accounts_eval hk he
  obtain ⟨h, hh, hplays⟩ := Proc.eval_plays he
  obtain rfl : m.history = h := hh
  have hend : Ended B V trusted d m.history r := (resume_ends d trusted).plays hplays
    fun e he => ⟨hacc.answers e he, hview e he, hidle e he⟩
  cases ht : taken m.history d with
  | none =>
    rw [statusOf, hacc.before ht, ← statusOf]
    simp
  | some item =>
    obtain ⟨hstatus, hfirst⟩ := hacc.claimed item ht
    rw [hstatus, and_iff_right hfirst]
    simp only [Option.some.injEq, forall_eq']
    have hsettled := hend item ht
    cases r with
    | ok reply => exact ⟨fun _ => hsettled.2, fun _ => hsettled.1⟩
    | error e =>
      obtain ⟨hrun, hbad⟩ := hsettled
      refine ⟨fun hne => absurd hrun hne, fun hgood => ?_⟩
      obtain hf | ⟨hr, hl⟩ := hbad
      · exact absurd hf hgood.1
      · exact absurd hgood.2 (not_or.mpr ⟨hr, hl⟩)

end Store

/-! ### Two steps -/

section Sample

def workflowItem (first second : String) : QueueItem Int :=
  { sampleItem "d" .dispatched none with
    payload := [("steps", .arr [.obj [("name", .str first)], .obj [("name", .str second)]])] }

def refusingWorld : World Int :=
  { sampleWorld 1 with
    answer := fun o => match o with
      | .dispatchTaskToWorker _ _ _ => .ok [("status", .str "ERROR")]
      | o => sampleAnswer 1 o }

abbrev resumeAlone (item : QueueItem Int) (ws : List (World Int)) :
    Option (Except Error (Reply Int) × (store sampleBuiltins).Moment) :=
  (resumeTaskFromCheckpoint sampleBuiltins "d" true).eval (store sampleBuiltins) ws
    ⟨sampleDb [item], []⟩

def Op.dispatches : Op F → Bool
  | .dispatchTaskToWorker _ _ _ => true
  | _ => false

def isRejected : Except Error (QueueItem F) → Bool
  | .error (.runtime _) => true
  | _ => false

/-- Two steps of one name: the call raises before it dispatches anything and leaves the item
running, so that the next resumption is rejected. -/
theorem claim_kept : ∃ ws e m, resumeAlone (workflowItem "a" "a") ws = some (.error e, m) ∧
    (∀ ev ∈ m.history, ev.op.dispatches = false) ∧ statusOf m.state "d" = some .running ∧
    isRejected (m.state.markTaskResuming id "d" 2).1 = true := by
  have h : (resumeAlone (workflowItem "a" "a") (List.replicate 7 refusingWorld)).any
      (fun p => p.1.toOption.isNone && p.2.history.all (fun ev => !ev.op.dispatches) &&
        statusOf p.2.state "d" == some .running &&
        isRejected (p.2.state.markTaskResuming id "d" 2).1) = true := by
    decide +kernel
  obtain ⟨⟨r, m⟩, hrun, hp⟩ := (Option.any_eq_true _ _).mp h
  simp only [Bool.and_eq_true, List.all_eq_true, Bool.not_eq_true', beq_iff_eq] at hp
  cases r with
  | ok reply => exact absurd hp.1.1.1 nofun
  | error e => exact ⟨_, e, m, hrun, hp.1.1.2, hp.1.2, hp.2⟩

def sampleView : View Int where
  session := (sampleDb []).loadSession
  assignment _ := none
  checkpoint _ := none
  there _ := false
  isDir _ := false
  size _ := 0
  head _ := none

def shows (V : View Int) (e : Event (sig Int) Error) : Bool :=
  match e with
  | ⟨.loadSession sessionId, .ok a⟩ => a = V.session sessionId
  | ⟨.loadWorktree workerId, .ok a⟩ => a = V.assignment workerId
  | ⟨.loadLatestCheckpoint workerId, .ok a⟩ => a = V.checkpoint workerId
  | ⟨.pathExists path, .ok a⟩ => a = V.there path
  | ⟨.isDir path, .ok a⟩ => a = V.isDir path
  | ⟨.fileSize path, .ok a⟩ => a = V.size path
  | ⟨.gitHead path, .ok a⟩ => a = V.head path
  | _ => true

theorem seen_of_shows {V : View Int} {o : Op Int} {a : o.Ret} (hs : shows V ⟨o, .ok a⟩ = true)
    (hi : Inspects o) : V.seen o = .ok a := by
  cases o with
  | loadSession | loadWorktree | loadLatestCheckpoint | pathExists | isDir | fileSize | gitHead =>
    exact congrArg Except.ok (of_decide_eq_true hs).symm
  | _ => cases hi

/-- Two steps of two names: the worker refuses the first one, and the claim is given up. -/
theorem claim_given_up : ∃ m : (store sampleBuiltins).Moment,
    statusOf m.state "d" ≠ some .running ∧ ∀ item, taken m.history "d" = some item →
      ¬ Failed m.history ∧
        (Refused m.history ∨ Resumable sampleBuiltins sampleView true item) := by
  have h : (resumeAlone (workflowItem "a" "b") (List.replicate 12 refusingWorld)).any
      (fun p => p.2.history.all (fun e => shows sampleView e && !e.op.achieves e.ans) &&
        statusOf p.2.state "d" == some .failed) = true := by
    decide +kernel
  obtain ⟨⟨r, m⟩, hrun, hp⟩ := (Option.any_eq_true _ _).mp h
  simp only [Bool.and_eq_true, List.all_eq_true, Bool.not_eq_true', beq_iff_eq] at hp
  have hfree : statusOf m.state "d" ≠ some .running := by simp [hp.2]
  have hk := keyed_sampleDb [workflowItem "a" "b"] (by decide)
  refine ⟨m, hfree, ((claim_released hk hrun (fun e he hi a ha => ?_) fun e he => ?_).mp hfree).2⟩
  · exact seen_of_shows (by rw [← ha]; exact (hp.1 e he).1) hi
  · simp [(hp.1 e he).2]

end Sample

end SubagentBridge.Supervisor
