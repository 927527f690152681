import SubagentBridge.Server.LifecycleLaws
import SubagentBridge.Team.ReturnedCalls

/-! The stages of a lifecycle, with what each leaves behind once it returns: the coordinator,
and the events that came. -/

namespace SubagentBridge.Server

open Library Domain Planner Qa Team SqliteStore Execution

variable {B : Type} {api : BudgetApi B}

def Op.launches : Op B → Option String
  | .runIsolated taskId _ => some taskId
  | .runQa taskId _ => some taskId
  | _ => none

def Op.still (o : Op B) : Prop := o.launches = none ∧ o.changesMemory = false

namespace Lifecycle

variable {α β : Type} {W : World B → Prop} {l : Lifecycle} {m₀ m m' : Moment B}
variable {c : SupervisedCoordinator B} {h : List (ServerEvent B)} {id : String}

/-- A process of a task is started only where all that the task depends on is verified. -/
def Waits (l : Lifecycle) (m m' : Moment B) : Prop :=
  ∀ e id, m'.history = m.history ++ [e] → e.op.launches = some id →
    ∃ c, m.state.memory.coordinator? l.workspace = some c ∧
      ∀ dep ∈ (c.dependencies.get? id).getD [], c.state? dep = some .verified

theorem waits_of_none {o : Op B} (ho : o.launches = none) (w : World B) (m : Moment B) :
    l.Waits m ((runtime B).after o w m) := by
  intro e id he hid
  obtain rfl := List.singleton_inj.mp (List.append_cancel_left he)
  rw [ho] at hid
  cases hid

theorem allowsAsking_waits : AllowsAsking (l.Waits (B := B)) := by
  intro o w m ho
  apply waits_of_none
  have hquiet : o.quiet = true := ho.1
  cases o <;> first | rfl | cases hquiet

def roleIn (l : Lifecycle) (m : Moment B) (id : String) : Option String :=
  (recordOf id (m.state.memory.taskRecords l.runId)).map (·.role)

/-- Since `m₀` the events `h` have come; the coordinator is `c`, and the roles are the same. -/
structure Standing (l : Lifecycle) (m₀ : Moment B) (c : SupervisedCoordinator B)
    (h : List (ServerEvent B)) (m : Moment B) : Prop where
  coordinator : m.state.memory.coordinator? l.workspace = some c
  history : m.history = m₀.history ++ h
  roles : ∀ id, l.roleIn m id = l.roleIn m₀ id

theorem Standing.next (hs : l.Standing m₀ c h m) {h' : List (ServerEvent B)}
    (hm : m'.state.memory = m.state.memory) (hh : m'.history = m.history ++ h') :
    l.Standing m₀ c (h ++ h') m' where
  coordinator := hm ▸ hs.coordinator
  history := by rw [hh, hs.history, List.append_assoc]
  roles id := by rw [← hs.roles, roleIn, roleIn, hm]

theorem Standing.after (hs : l.Standing m₀ c h m) {o : Op B} (ho : o.changesMemory = false)
    (w : World B) : l.Standing m₀ c (h ++ [⟨o, (exec o w m.state).1⟩])
      ((runtime B).after o w m) :=
  hs.next (memory_of_not_changes ho w m.state) rfl

def Stands (l : Lifecycle) (m₀ : Moment B) (h : List (ServerEvent B))
    (P : SupervisedCoordinator B → List (ServerEvent B) → α → Prop) (m : Moment B) (a : α) : Prop :=
  ∃ c' h', l.Standing m₀ c' (h ++ h') m ∧ P c' h' a

variable {P : SupervisedCoordinator B → List (ServerEvent B) → α → Prop}
  {Q : SupervisedCoordinator B → List (ServerEvent B) → β → Prop} {p : Call B α}

/-- `p` is a stage that begins after the events `h` and, if it returns, ends with `P`. -/
abbrev Stage (l : Lifecycle) (W : World B → Prop) (m₀ : Moment B) (h : List (ServerEvent B))
    (P : SupervisedCoordinator B → List (ServerEvent B) → α → Prop) (m : Moment B)
    (p : Call B α) : Prop := p.Ensures W l.Waits (Proc.Returns (l.Stands m₀ h P)) m

theorem stage_ret {a : α} (hs : l.Standing m₀ c h m) (hP : P c [] a) :
    l.Stage W m₀ h P m (.ret a) :=
  (Proc.returns_ok a).mpr ⟨c, [], by rwa [List.append_nil], hP⟩

theorem Stage.mono {P' : SupervisedCoordinator B → List (ServerEvent B) → α → Prop}
    (hp : l.Stage W m₀ h P m p) (hP : ∀ c h a, P c h a → P' c h a) : l.Stage W m₀ h P' m p := by
  apply Proc.Ensures.post hp
  intro m' r hr a ha
  obtain ⟨c, h', hs, hc⟩ := hr a ha
  exact ⟨c, h', hs, hP c h' a hc⟩

theorem Stage.bind {f : α → Call B β} (hp : l.Stage W m₀ h P m p)
    (hf : ∀ m₁ c₁ h₁ a, l.Standing m₀ c₁ (h ++ h₁) m₁ → P c₁ h₁ a →
      l.Stage W m₀ (h ++ h₁) (fun c₂ h₂ b => Q c₂ (h₁ ++ h₂) b) m₁ (f a)) :
    l.Stage W m₀ h Q m (p.bind f) := by
  apply Proc.Ensures.then hp
  rintro m₁ a ⟨c₁, h₁, hs, hP⟩
  refine (hf m₁ c₁ h₁ a hs hP).post fun m₂ r hr b hb => ?_
  obtain ⟨c₂, h₂, hs₂, hQ⟩ := hr b hb
  exact ⟨c₂, h₁ ++ h₂, by rwa [← List.append_assoc], hQ⟩

theorem stage_perform {o : Op B} (hs : l.Standing m₀ c h m) (ho : o.changesMemory = false)
    (hw : ∀ w, l.Waits m ((runtime B).after o w m)) :
    l.Stage W m₀ h (fun c' h' a => c' = c ∧ h' = [⟨o, .ok a⟩] ∧ ∃ w, (exec o w m.state).1 = .ok a)
      m (perform o) := by
  apply ensures_perform o
  refine fun w _ _ => ⟨hw w, fun a ha => ⟨c, _, hs.after ho w, rfl, ?_, w, ha⟩⟩
  rw [ha]

theorem stage_memory (hs : l.Standing m₀ c h m) :
    l.Stage W m₀ h (fun c' _ a => c' = c ∧ a = m.state.memory) m (perform .memory) := by
  apply (stage_perform hs rfl fun w => waits_of_none rfl w m).mono
  rintro c' h' a ⟨rfl, -, w, ha⟩
  cases ha
  exact ⟨rfl, rfl⟩

theorem stage_still (hp : p.Only Op.still) (hs : l.Standing m₀ c h m) :
    l.Stage W m₀ h (fun c' _ _ => c' = c) m p := by
  have hstand : p.Ensures W l.Waits (fun m' _ => ∃ h', l.Standing m₀ c (h ++ h') m') m := by
    apply hp.ensures (I := fun m' => ∃ h', l.Standing m₀ c (h ++ h') m')
    · exact ⟨[], by rwa [List.append_nil]⟩
    · rintro o w m' ho _ _ ⟨h', hs'⟩
      exact ⟨waits_of_none ho.1 w m', _, by simpa using hs'.after ho.2 w⟩
  apply hstand.post
  rintro m' r ⟨h', hs'⟩ a -
  exact ⟨c, h', hs', rfl⟩

/-! ## The coordinator and the records -/

theorem coordinate_stage (hs : l.Standing m₀ c h m)
    (f : String → SupervisedCoordinator B → Result (SupervisedCoordinator B) α) :
    l.Stage W m₀ h (fun c' _ a => ∃ uuid4, f uuid4 c = (.ok a, c')) m
      (coordinate l.workspace f) := by
  apply ensures_ask_bind allowsAsking_waits ⟨rfl, rfl⟩
  · intro m₁ uuid4 h₁ hn₁
    apply ensures_memory_bind allowsAsking_waits
    intro m₂ h₂ hn₂
    obtain ⟨e₁, -, hh₁⟩ := hn₁
    obtain ⟨e₂, -, hh₂⟩ := hn₂
    have hs₂ : l.Standing m₀ c (h ++ [e₁, e₂]) m₂ := by
      refine hs.next (by rw [h₂, h₁]) ?_
      rw [hh₂, hh₁, List.append_assoc]
      rfl
    rw [← h₂, hs₂.coordinator]
    apply ensures_modify_bind fun w => waits_of_none rfl w m₂
    rintro m₃ h₃ ⟨e₃, -, hh₃⟩
    have hs₃ : l.Standing m₀ (f uuid4 c).2 (h ++ [e₁, e₂, e₃]) m₃ := by
      obtain ⟨sys, hsys, -⟩ := Option.bind_eq_some_iff.mp hs₂.coordinator
      refine ⟨?_, ?_, fun id => ?_⟩
      · simp [h₃, Memory.coordinator?, Memory.setCoordinator, hsys, Dict.get?_set]
      · rw [hh₃, hs₂.history, List.append_assoc, List.append_assoc]
        rfl
      · rw [← hs₂.roles, roleIn, roleIn, h₃]
        simp [Memory.setCoordinator, hsys, Memory.taskRecords]
    cases hr : (f uuid4 c).1 with
    | error e => exact Proc.returns_error _
    | ok a =>
      refine (Proc.returns_ok a).mpr ⟨(f uuid4 c).2, _, hs₃, uuid4, ?_⟩
      rw [← hr]
  · exact fun m₁ e _ _ => Proc.returns_error e

theorem roles_modifyRecord {f : TaskRecord → TaskRecord} (hid : ∀ r, (f r).taskId = r.taskId)
    (hrole : ∀ r, (f r).role = r.role) (rs : List TaskRecord) (id' : String) :
    (recordOf id' (modifyRecord id f rs)).map (·.role) = (recordOf id' rs).map (·.role) := by
  by_cases hne : id' = id
  · rw [hne, recordOf_modifyRecord hid, Option.map_map]
    exact congrArg (Option.map · _) (funext hrole)
  · rw [recordOf_modifyRecord_of_ne hid hne]

theorem saveRecord_stage (hs : l.Standing m₀ c h m) {f : TaskRecord → TaskRecord}
    (hid : ∀ r, (f r).taskId = r.taskId) (hrole : ∀ r, (f r).role = r.role) :
    l.Stage W m₀ h (fun c' _ (_ : Unit) => c' = c) m (l.saveRecord id f) := by
  apply ensures_memory_bind allowsAsking_waits
  rintro m₁ h₁ ⟨e₁, -, hh₁⟩
  apply ensures_modify_bind fun w => waits_of_none rfl w m₁
  rintro m₂ h₂ ⟨e₂, -, hh₂⟩
  have hs₁ : l.Standing m₀ c (h ++ [e₁]) m₁ := hs.next (by rw [h₁]) hh₁
  have hs₂ : l.Standing m₀ c (h ++ [e₁] ++ [e₂]) m₂ := by
    refine ⟨?_, ?_, fun id' => ?_⟩
    · rw [← hs₁.coordinator, h₂]
      rfl
    · rw [hh₂, hs₁.history, List.append_assoc]
    · rw [← hs.roles, roleIn, h₂]
      simp only [Memory.taskRecords, Dict.get?_set, if_true, Option.getD_some]
      exact roles_modifyRecord hid hrole _ id'
  rw [List.append_assoc] at hs₂
  split
  next r _ =>
    rw [Proc.when]
    split
    next =>
      apply ensures_perform (.upsertTask r)
      intro w _ _
      have hs₃ := hs₂.after (o := .upsertTask r) rfl w
      rw [List.append_assoc] at hs₃
      exact ⟨waits_of_none rfl w m₂, fun a _ => ⟨c, _, hs₃, rfl⟩⟩
    next => exact (Proc.returns_ok ()).mpr ⟨c, _, hs₂, rfl⟩
  next => exact (Proc.returns_ok ()).mpr ⟨c, _, hs₂, rfl⟩

theorem saveStatus_stage (hs : l.Standing m₀ c h m) (status : TaskStatus) :
    l.Stage W m₀ h (fun c' _ (_ : Unit) => c' = c) m (l.saveStatus id status) :=
  saveRecord_stage hs (fun _ => rfl) fun _ => rfl

theorem logEvent_still (key eventType : String) (payload : Dict String String) :
    (l.logEvent key eventType payload : Call B Unit).Only Op.still :=
  Proc.Only.tryCatch ((Proc.only_op _).mpr ⟨rfl, rfl⟩) fun _ => trivial

/-! ## From the freeze to the report -/

theorem receipts_of_issue {executor : Principal} {s : Scope} {exitCode : Int} {uuid4 : String}
    {receipt : ExecutorReceipt} {c' : SupervisedCoordinator B}
    (h : issueReceipt executor s exitCode uuid4 c = (.ok receipt, c')) :
    ∃ receipts, c' = { c with receipts } := by
  rw [issueReceipt] at h
  cases hissue : c.receipts.issue c.identities uuid4 executor s exitCode with
  | error e => rw [hissue] at h; cases h
  | ok r =>
    rw [hissue, orRaise_ok] at h
    cases h
    exact ⟨r.2, rfl⟩

theorem receipts_of_createEvidence {receiptId : String} {s : Scope} {uuid4 : String}
    {evidence : Evidence} {c' : SupervisedCoordinator B}
    (h : createEvidence receiptId s uuid4 c = (.ok evidence, c')) :
    ∃ receipts, c' = { c with receipts } := by
  rw [createEvidence] at h
  cases hcreate : c.receipts.createEvidence uuid4 receiptId s with
  | error e => rw [hcreate] at h; cases h
  | ok r =>
    rw [hcreate, orRaise_ok] at h
    cases h
    exact ⟨r.2, rfl⟩

theorem freezeTask_stage (hs : l.Standing m₀ c h m) :
    l.Stage W m₀ h (fun c' _ role => l.roleIn m₀ id = some role ∧ Aside id c c' ∧
      c'.budget = c.budget ∧ c'.activeIds = c.activeIds ∧ c'.state? id = some .frozen) m
      (l.freezeTask id : Call B String) := by
  apply (stage_memory hs).bind
  rintro m₁ c₁ h₁ memory hs₁ ⟨rfl, rfl⟩
  split
  next => exact Proc.returns_error _
  next record hr =>
    have hrole : l.roleIn m₀ id = some record.role := by
      rw [← hs.roles, roleIn, hr, Option.map_some]
    apply (coordinate_stage hs₁ _).bind
    rintro m₂ c₂ h₂ _ hs₂ ⟨uuid4, hfreeze⟩
    apply (saveStatus_stage hs₂ _).bind
    rintro m₃ c₃ h₃ _ hs₃ rfl
    apply (stage_still (logEvent_still _ _ _) hs₃).bind
    rintro m₄ c₄ h₄ _ hs₄ rfl
    exact stage_ret hs₄ ⟨hrole, freeze_ok hfreeze⟩

theorem missingCommand_stage (hs : l.Standing m₀ c h m) :
    l.Stage W m₀ h (fun c' _ f => c' = c ∧ ∃ reason, f = some ⟨id, reason⟩) m
      (l.missingCommand id : Call B (Option Failure)) := by
  apply (saveStatus_stage hs _).bind
  rintro m₁ c₁ h₁ _ hs₁ rfl
  apply (stage_still (logEvent_still _ _ _) hs₁).bind
  rintro m₂ c₂ h₂ _ hs₂ rfl
  exact stage_ret hs₂ ⟨rfl, _, rfl⟩

theorem beginDispatch_stage (hs : l.Standing m₀ c h m) :
    l.Stage W m₀ h (fun c' _ plan => Begun api 500 10000 id plan c c') m
      (l.beginDispatch api id) := by
  apply (coordinate_stage hs _).bind
  rintro m₁ c₁ h₁ plan hs₁ ⟨uuid4, hbegin⟩
  apply (saveStatus_stage hs₁ _).bind
  rintro m₂ c₂ h₂ _ hs₂ rfl
  have hdispatch : (Proc.when l.useStore (perform (.upsertDispatch
      ⟨plan.dispatchId, id, 1, "dispatch:" ++ l.runId ++ ":" ++ id, plan.treeSha, "DISPATCHED"⟩)) :
      Call B Unit).Only Op.still := Proc.only_when ((Proc.only_op _).mpr ⟨rfl, rfl⟩)
  apply (stage_still hdispatch hs₂).bind
  rintro m₃ c₃ h₃ _ hs₃ rfl
  apply (stage_still (logEvent_still _ _ _) hs₃).bind
  rintro m₄ c₄ h₄ _ hs₄ rfl
  exact stage_ret hs₄ (begin_ok hbegin)

theorem releaseDispatch_stage (hs : l.Standing m₀ c h m) :
    l.Stage W m₀ h (fun c' _ _ => c' = c.releaseDispatch api id) m (l.releaseDispatch api id) := by
  apply (coordinate_stage hs _).mono
  rintro c' h' _ ⟨uuid4, hrelease⟩
  cases hrelease
  rfl

theorem consult_still : (l.consult id : Call B Unit).Only Op.still := by
  apply Proc.Only.tryCatch
  · exact Proc.Only.bind ((Proc.only_op _).mpr ⟨rfl, rfl⟩) fun _ => logEvent_still _ _ _
  · exact fun _ => logEvent_still _ _ _

def Ready (c : SupervisedCoordinator B) (id : String) : Prop :=
  ∀ dep ∈ (c.dependencies.get? id).getD [], c.state? dep = some .verified

theorem Ready.waits (hr : Ready c id) (hs : l.Standing m₀ c h m) {o : Op B}
    (ho : o.launches = some id) (w : World B) : l.Waits m ((runtime B).after o w m) := by
  intro e id' he hid
  obtain rfl := List.singleton_inj.mp (List.append_cancel_left he)
  cases ho.symm.trans hid
  exact ⟨c, hs.coordinator, hr⟩

theorem develop_stage (hs : l.Standing m₀ c h m) (hr : Ready c id) (cmd : List String) :
    l.Stage W m₀ h (fun c' h' exitCode => c' = c ∧ (exitCode = 0 →
      ∃ output, ⟨.runIsolated id cmd, .ok ⟨0, output⟩⟩ ∈ h')) m (develop id cmd) := by
  apply Proc.Ensures.tryCatch (M := fun m' r => ∃ h', l.Standing m₀ c (h ++ h') m' ∧
    ∀ exitCode, r = .ok exitCode → exitCode = 0 →
      ∃ output, ⟨.runIsolated id cmd, .ok ⟨0, output⟩⟩ ∈ h')
  · apply ensures_perform_bind
    intro w _ _
    have hs' := hs.after (o := .runIsolated id cmd) rfl w
    refine ⟨hr.waits hs rfl w, fun result hresult => ⟨_, hs', ?_⟩, fun e _ => ⟨_, hs', ?_⟩⟩
    · intro exitCode hok hzero
      obtain ⟨code, output⟩ := result
      cases hok
      subst hzero
      exact ⟨output, by rw [hresult]; exact List.mem_singleton.mpr rfl⟩
    · exact fun _ he => by cases he
  · rintro m' exitCode ⟨h', hs', hok⟩ a ha
    cases ha
    exact ⟨c, h', hs', rfl, hok exitCode rfl⟩
  · rintro m' e ⟨h', hs', -⟩
    exact (Proc.returns_ok _).mpr ⟨c, h', hs', rfl, fun hzero => by cases hzero⟩

theorem reportSuccess_stage (hs : l.Standing m₀ c h m) (plan : DispatchPlan) (exitCode : Int) :
    l.Stage W m₀ h (fun c' _ _ => Aside id c c' ∧ c'.budget = c.budget ∧
      c'.activeIds = c.activeIds) m (l.reportSuccess id plan exitCode : Call B Evidence) := by
  apply (coordinate_stage hs _).bind
  rintro m₁ c₁ h₁ _ hs₁ ⟨_, hreport⟩
  obtain ⟨haside, hbudget, hactive, -⟩ := reportProcessSucceeded_ok hreport
  apply (saveStatus_stage hs₁ _).bind
  rintro m₂ c₂ h₂ _ hs₂ rfl
  apply (stage_still (logEvent_still _ _ _) hs₂).bind
  rintro m₃ c₃ h₃ _ hs₃ rfl
  apply (coordinate_stage hs₃ _).bind
  rintro m₄ c₄ h₄ receipt hs₄ ⟨_, hissue⟩
  apply (coordinate_stage hs₄ _).mono
  rintro c₅ h₅ evidence ⟨_, hcreate⟩
  obtain ⟨receipts, rfl⟩ := receipts_of_issue hissue
  obtain ⟨receipts', rfl⟩ := receipts_of_createEvidence hcreate
  exact ⟨⟨haside.order, haside.dependencies, haside.testHashes, haside.contract, haside.tasks⟩,
    hbudget, hactive⟩

/-! ## The review -/

theorem testFiles_still (relPaths : List String) :
    (l.testFiles relPaths : Call B _).Only Op.still := by
  induction relPaths with
  | nil => trivial
  | cons relPath relPaths ih =>
    apply Proc.only_op_bind ⟨rfl, rfl⟩
    intro _
    exact Proc.Only.bind ih fun _ => trivial

theorem still_bind {f : α → Call B β} (hp : p.Only Op.still) (hs : l.Standing m₀ c h m)
    (hf : ∀ m₁ h₁ a, l.Standing m₀ c (h ++ h₁) m₁ →
      l.Stage W m₀ (h ++ h₁) (fun c₂ h₂ b => Q c₂ (h₁ ++ h₂) b) m₁ (f a)) :
    l.Stage W m₀ h Q m (p.bind f) := by
  apply (stage_still hp hs).bind
  rintro m₁ c₁ h₁ a hs₁ rfl
  exact hf m₁ h₁ a hs₁

theorem runTests_stage (hs : l.Standing m₀ c h m) (hr : Ready c id) (pins : Dict String String) :
    l.Stage W m₀ h (fun c' h' passed => c' = c ∧ (passed = true → ∃ h₀ files run,
      h' = h₀ ++ [⟨.runQa id files, .ok run⟩] ∧ qaPassed run = true)) m
      (l.runTests id pins : Call B Bool) := by
  apply still_bind (testFiles_still _) hs
  intro m₁ h₁ files hs₁
  split
  next => exact stage_ret hs₁ ⟨rfl, fun hpassed => by cases hpassed⟩
  next =>
    apply still_bind ((Proc.only_op _).mpr ⟨rfl, rfl⟩) hs₁
    intro m₂ h₂ _ hs₂
    apply Proc.Ensures.tryCatch (M := fun m' r => ∃ h', l.Standing m₀ c (h ++ h₁ ++ h₂ ++ h') m' ∧
      ∀ passed, r = .ok passed → passed = true →
        ∃ run, h' = [⟨.runQa id files, .ok run⟩] ∧ qaPassed run = true)
    · apply ensures_perform_bind
      intro w _ _
      have hs₃ := hs₂.after (o := .runQa id files) rfl w
      refine ⟨hr.waits hs₂ rfl w, fun run hrun => ⟨_, hs₃, ?_⟩, fun e _ => ⟨_, hs₃, ?_⟩⟩
      · intro passed hok hpassed
        cases hok
        exact ⟨run, by rw [hrun], hpassed⟩
      · exact fun _ he => by cases he
    · rintro m' passed ⟨h', hs', hok⟩ a ha
      cases ha
      refine ⟨c, h', hs', rfl, fun hpassed => ?_⟩
      obtain ⟨run, rfl, hqa⟩ := hok passed rfl hpassed
      exact ⟨h₁ ++ h₂, files, run, by rw [List.append_assoc], hqa⟩
    · rintro m' e ⟨h', hs', -⟩
      exact (Proc.returns_ok _).mpr ⟨c, h', hs', rfl, fun hfalse => by cases hfalse⟩

def Digested (l : Lifecycle) (h : List (ServerEvent B)) (path digest : String) : Prop :=
  ∃ answer, ⟨.fileDigest (l.pathOf path), .ok answer⟩ ∈ h ∧ digest = answer.getD (zeros 64)

theorem digests_fold (paths : List String) (actual : Dict String String)
    (h₀ : List (ServerEvent B)) (hs : l.Standing m₀ c h m)
    (hactual : ∀ path digest, actual.get? path = some digest → l.Digested h₀ path digest) :
    l.Stage W m₀ h (fun c' h' digests => c' = c ∧ ∀ path digest,
      digests.get? path = some digest → l.Digested (h₀ ++ h') path digest) m
      (Proc.fold (fun actual relPath => do
        let digest ← perform (.fileDigest (l.pathOf relPath))
        return actual.set relPath (digest.getD (zeros 64))) actual paths) := by
  induction paths generalizing m h h₀ actual with
  | nil => exact stage_ret hs ⟨rfl, by rwa [List.append_nil]⟩
  | cons relPath paths ih =>
    apply Stage.bind (P := fun c' h' actual' => c' = c ∧ ∀ path digest,
      actual'.get? path = some digest → l.Digested (h₀ ++ h') path digest)
    · apply (stage_perform hs rfl fun w => waits_of_none rfl w m).bind
      rintro m₁ c₁ h₁ answer hs₁ ⟨rfl, rfl, -⟩
      refine stage_ret hs₁ ⟨rfl, fun path digest hget => ?_⟩
      rw [Dict.get?_set] at hget
      split at hget
      next hpath =>
        cases hget
        exact ⟨answer, by simp [hpath], rfl⟩
      next =>
        obtain ⟨answer', hmem, hdigest⟩ := hactual path digest hget
        exact ⟨answer', List.mem_append_left _ hmem, hdigest⟩
    · rintro m₁ c₁ h₁ actual' hs₁ ⟨rfl, hactual'⟩
      apply (ih actual' (h₀ ++ h₁) hs₁ hactual').mono
      rintro c' h₂ digests ⟨rfl, hdigests⟩
      rw [← List.append_assoc]
      exact ⟨rfl, hdigests⟩

structure Inspected (l : Lifecycle) (co : QaEvidenceGate.Checkout) (h : List (ServerEvent B)) :
    Prop where
  status : ∃ status, ⟨.gitStatus l.workspace, .ok status⟩ ∈ h ∧
    co.clean = checkCleanCheckout status
  tree : ∃ tree, ⟨.inspectTree l.workspace, .ok tree⟩ ∈ h ∧
    co.actualTree = resolveTreeSha tree.1 tree.2
  digests : ∀ path digest, co.actualTestHashes.get? path = some digest →
    l.Digested h path digest

/-- The inspection comes after the tests; criteria are covered only if the tests have passed. -/
def Examined (l : Lifecycle) (id : String) (co : QaEvidenceGate.Checkout)
    (h : List (ServerEvent B)) : Prop :=
  ∃ h₁ h₂, h = h₁ ++ h₂ ∧ l.Inspected co h₂ ∧ (co.coveredCriteria ≠ [] →
    ∃ h₀ files run, h₁ = h₀ ++ [⟨.runQa id files, .ok run⟩] ∧ qaPassed run = true)

theorem review_stage (hs : l.Standing m₀ c h m) (hr : Ready c id) (evidence : Evidence) :
    l.Stage W m₀ h (fun c' h' d => ∃ r : SupervisedCoordinator.QaReview, r.taskId = id ∧
      Reviewed api r d c c' ∧ l.Examined id r.checkout h') m (l.review api id evidence) := by
  have hpins : (l.pins : Call B _).Only Op.still := Proc.only_op_bind ⟨rfl, rfl⟩ fun _ => trivial
  apply still_bind hpins hs
  intro m₁ h₁ pins hs₁
  apply (runTests_stage hs₁ hr pins).bind
  rintro m₂ c₂ h₂ passed hs₂ ⟨rfl, hpassed⟩
  apply (stage_perform hs₂ rfl fun w => waits_of_none rfl w m₂).bind
  rintro m₃ c₃ h₃ status hs₃ ⟨rfl, rfl, -⟩
  apply (stage_perform hs₃ rfl fun w => waits_of_none rfl w m₃).bind
  rintro m₄ c₄ h₄ tree hs₄ ⟨rfl, rfl, -⟩
  apply (digests_fold pins.keys [] [] hs₄ fun _ _ hget => by cases hget).bind
  rintro m₅ c₅ h₅ digests hs₅ ⟨rfl, hdigests⟩
  apply (coordinate_stage hs₅ _).mono
  rintro c' h₆ d ⟨uuid4, hreview⟩
  refine ⟨_, rfl, qaReview_ok hreview, h₁ ++ h₂, _, (List.append_assoc _ _ _).symm, ?_, ?_⟩
  · refine ⟨⟨status, ?_, rfl⟩, ⟨tree, ?_, rfl⟩, fun path digest hget => ?_⟩
    · simp
    · simp
    · obtain ⟨answer, hmem, hdigest⟩ := hdigests path digest hget
      exact ⟨answer, by simp_all, hdigest⟩
  · intro hcovered
    cases passed with
    | false => exact absurd rfl hcovered
    | true =>
      obtain ⟨h₀, files, run, rfl, hqa⟩ := hpassed rfl
      exact ⟨h₁ ++ h₀, files, run, (List.append_assoc _ _ _).symm, hqa⟩

end Lifecycle

end SubagentBridge.Server
