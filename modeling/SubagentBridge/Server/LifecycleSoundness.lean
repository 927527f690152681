import SubagentBridge.Planner.TaskDagLaws
import SubagentBridge.Server.LifecycleStages

/-! What a lifecycle that returns vouches for: the tasks that it calls verified, the one that
failed, and the reservations. -/

namespace SubagentBridge.Server

open Library Domain Planner Qa Team SqliteStore Execution

variable {B : Type} {api : BudgetApi B} {ledger : Ledger api}

namespace Lifecycle

variable {α β : Type} {W : World B → Prop} {l : Lifecycle} {m₀ m m' : Moment B}
variable {c c' c'' : SupervisedCoordinator B} {h h' : List (ServerEvent B)} {id : String}

/-- Among the events `h`, in this order: the mapped command exited with 0; the tests ran and
qualified; the checkout was clean and at the tree of the contract, and every pinned file had the
digest that it is pinned to. -/
def Attested (l : Lifecycle) (m₀ : Moment B) (c : SupervisedCoordinator B) (id : String)
    (h : List (ServerEvent B)) : Prop :=
  ∃ role cmd output files run h₁ h₂, l.roleIn m₀ id = some role ∧
    commandFor l.commands id role = some cmd ∧
    h = h₁ ++ ⟨.runQa id files, .ok run⟩ :: h₂ ∧
    ⟨.runIsolated id cmd, .ok ⟨0, output⟩⟩ ∈ h₁ ∧ Qualifies run ∧
    (∃ status, ⟨.gitStatus l.workspace, .ok status⟩ ∈ h₂ ∧ checkCleanCheckout status = true) ∧
    (∃ tree task, ⟨.inspectTree l.workspace, .ok tree⟩ ∈ h₂ ∧ c.contract? id = some task ∧
      resolveTreeSha tree.1 tree.2 = task.treeSha) ∧
    ∀ path digest, c.testHashes.get? path = some digest → l.Digested h₂ path digest

theorem Attested.before (ha : l.Attested m₀ c id h) (h' : List (ServerEvent B)) :
    l.Attested m₀ c id (h' ++ h) := by
  obtain ⟨role, cmd, output, files, run, h₁, h₂, hrole, hcmd, rfl, hdev, hrest⟩ := ha
  exact ⟨role, cmd, output, files, run, h' ++ h₁, h₂, hrole, hcmd, by simp,
    List.mem_append_right _ hdev, hrest⟩

theorem Attested.after (ha : l.Attested m₀ c id h) (h' : List (ServerEvent B)) :
    l.Attested m₀ c id (h ++ h') := by
  obtain ⟨role, cmd, output, files, run, h₁, h₂, hrole, hcmd, rfl, hdev, hqa, ⟨status, hs, hclean⟩,
    ⟨tree, task, ht, htask, htree⟩, hdigests⟩ := ha
  refine ⟨role, cmd, output, files, run, h₁, h₂ ++ h', hrole, hcmd, by simp, hdev, hqa,
    ⟨status, List.mem_append_left _ hs, hclean⟩,
    ⟨tree, task, List.mem_append_left _ ht, htask, htree⟩, fun path digest hget => ?_⟩
  obtain ⟨answer, hmem, hdigest⟩ := hdigests path digest hget
  exact ⟨answer, List.mem_append_left _ hmem, hdigest⟩

theorem Attested.congr (ha : l.Attested m₀ c id h) (hc : c'.contract? id = c.contract? id)
    (ht : c'.testHashes = c.testHashes) : l.Attested m₀ c' id h := by
  obtain ⟨role, cmd, output, files, run, h₁, h₂, hrole, hcmd, hh, hdev, hqa, hstatus,
    ⟨tree, task, htree, htask⟩, hdigests⟩ := ha
  exact ⟨role, cmd, output, files, run, h₁, h₂, hrole, hcmd, hh, hdev, hqa, hstatus,
    ⟨tree, task, htree, hc ▸ htask⟩, ht ▸ hdigests⟩

/-- An answer that says nothing else than it counts for: no run of the tests that passes in spite
of a failure, and no pinned file that is missing where the pin is the digest of a missing file. -/
def Candid (l : Lifecycle) (c : SupervisedCoordinator B) : ServerEvent B → Prop
  | ⟨.runQa _ _, .ok run⟩ => ¬ Misreported run
  | ⟨.fileDigest path, .ok none⟩ =>
    ∀ relPath, c.testHashes.get? relPath = some (zeros 64) → l.pathOf relPath ≠ path
  | _ => True

/-- Attested, of tests that have passed and of files that were there. -/
def Proven (l : Lifecycle) (m₀ : Moment B) (c : SupervisedCoordinator B) (id : String)
    (h : List (ServerEvent B)) : Prop :=
  ∃ role cmd output files run h₁ h₂, l.roleIn m₀ id = some role ∧
    commandFor l.commands id role = some cmd ∧
    h = h₁ ++ ⟨.runQa id files, .ok run⟩ :: h₂ ∧
    ⟨.runIsolated id cmd, .ok ⟨0, output⟩⟩ ∈ h₁ ∧ TestsPassed run ∧
    (∃ status, ⟨.gitStatus l.workspace, .ok status⟩ ∈ h₂ ∧ checkCleanCheckout status = true) ∧
    (∃ tree task, ⟨.inspectTree l.workspace, .ok tree⟩ ∈ h₂ ∧ c.contract? id = some task ∧
      resolveTreeSha tree.1 tree.2 = task.treeSha) ∧
    ∀ path digest, c.testHashes.get? path = some digest →
      ⟨.fileDigest (l.pathOf path), .ok (some digest)⟩ ∈ h₂

theorem Digested.read {path digest : String} (hd : l.Digested h path digest)
    (hpin : c.testHashes.get? path = some digest) (hcandid : ∀ e ∈ h, l.Candid c e) :
    ⟨.fileDigest (l.pathOf path), .ok (some digest)⟩ ∈ h := by
  obtain ⟨answer, hmem, rfl⟩ := hd
  cases answer with
  | some digest => exact hmem
  | none => exact absurd rfl (hcandid _ hmem path hpin)

theorem Attested.proven (ha : l.Attested m₀ c id h) (hcandid : ∀ e ∈ h, l.Candid c e) :
    l.Proven m₀ c id h := by
  obtain ⟨role, cmd, output, files, run, h₁, h₂, hrole, hcmd, rfl, hdev, hqa, hstatus, htree,
    hdigests⟩ := ha
  obtain ⟨-, hrun, hafter⟩ := List.forall_mem_append.mp hcandid |>.imp_right List.forall_mem_cons.mp
  refine ⟨role, cmd, output, files, run, h₁, h₂, hrole, hcmd, rfl, hdev, passed_iff.mpr ⟨hqa, hrun⟩,
    hstatus, htree, fun path digest hpin => ?_⟩
  exact (hdigests path digest hpin).read hpin hafter

/-! ## Reservations -/

def Frees (ledger : Ledger api) (id : String) (c c' : SupervisedCoordinator B) : Prop :=
  ∀ Dependable before, Exact ledger Dependable → Engaged ledger Dependable before id c →
    Settled ledger Dependable before c'

def Balances (ledger : Ledger api) (c c' : SupervisedCoordinator B) : Prop :=
  ∀ Dependable before, Exact ledger Dependable → Settled ledger Dependable before c →
    Settled ledger Dependable before c'

theorem balances_of_begun {plan : DispatchPlan} (hb : Begun api 500 10000 id plan c c')
    (hf : Frees ledger id c' c'') : Balances ledger c c'' :=
  fun Dependable before hexact hs => hf Dependable before hexact
    (hs.engages hexact hb.reserved hb.budget hb.activeIds)

/-! ## One task -/

structure Turn (l : Lifecycle) (m₀ : Moment B) (id : String) (c c' : SupervisedCoordinator B)
    (h : List (ServerEvent B)) (f : Option Failure) : Prop where
  aside : Aside id c c'
  verified : f = none → c'.state? id = some .verified ∧ l.Attested m₀ c id h
  failed : ∀ f', f = some f' → f'.failedTaskId = id ∧ c'.state? id ≠ some .verified

theorem Turn.before {f : Option Failure} (ht : l.Turn m₀ id c c' h f)
    (h' : List (ServerEvent B)) : l.Turn m₀ id c c' (h' ++ h) f :=
  ⟨ht.aside, fun hf => ⟨(ht.verified hf).1, (ht.verified hf).2.before h'⟩, ht.failed⟩

theorem Turn.since {f : Option Failure} (ht : l.Turn m₀ id c' c'' h f) (ha : Aside id c c') :
    l.Turn m₀ id c c'' h f where
  aside := ha.trans ht.aside
  verified hf := ⟨(ht.verified hf).1, (ht.verified hf).2.congr (ha.contract id).symm
    ha.testHashes.symm⟩
  failed := ht.failed

theorem turn_failed (ha : Aside id c c') (hs : c'.state? id ≠ some .verified) (reason : String) :
    l.Turn m₀ id c c' h (some ⟨id, reason⟩) :=
  ⟨ha, fun hnone => (by cases hnone), fun f' hf => (by cases hf; exact ⟨rfl, hs⟩)⟩

theorem settle_stage (hs : l.Standing m₀ c h m) (plan : DispatchPlan) (evidence : Evidence)
    (d : EvidenceDecision) : l.Stage W m₀ h (fun c' _ f =>
      d.status = .qaVerified ∧ c' = c ∧ f = none ∨ d.status ≠ .qaVerified ∧
        c' = c.releaseDispatch api id ∧ ∃ reason, f = some ⟨id, reason⟩) m
      (l.settle api id plan evidence d) := by
  rw [settle]
  split
  next hd =>
    refine Stage.bind (saveRecord_stage hs (fun r => ?_) fun r => ?_) ?_
    · rfl
    · rfl
    · rintro m₁ c₁ h₁ _ hs₁ rfl
      apply (stage_still (logEvent_still _ _ _) hs₁).bind
      rintro m₂ c₂ h₂ _ hs₂ rfl
      exact stage_ret hs₂ (.inl ⟨hd, rfl, rfl⟩)
  next hd =>
    apply (releaseDispatch_stage hs).bind
    rintro m₁ c₁ h₁ _ hs₁ rfl
    apply (saveStatus_stage hs₁ _).bind
    rintro m₂ c₂ h₂ _ hs₂ rfl
    exact stage_ret hs₂ (.inr ⟨hd, rfl, _, rfl⟩)

theorem attested_of_accepting {r : SupervisedCoordinator.QaReview} {role : String}
    {cmd : List String} {output : String} {task : Task} {h₁ h₂ : List (ServerEvent B)}
    (hrole : l.roleIn m₀ id = some role) (hcmd : commandFor l.commands id role = some cmd)
    (hdev : ⟨.runIsolated id cmd, .ok ⟨0, output⟩⟩ ∈ h₁) (hx : l.Examined id r.checkout h₂)
    (htask : c.contract? id = some task)
    (hacc : Accepting c.testHashes task.acceptanceCriteria task.treeSha
      r.checkout) : l.Attested m₀ c id (h₁ ++ h₂) := by
  obtain ⟨h₃, h₄, rfl, hinspected, htests⟩ := hx
  obtain ⟨status, hstatus, hclean⟩ := hinspected.status
  obtain ⟨tree, htree, hsha⟩ := hinspected.tree
  have hcovered : r.checkout.coveredCriteria ≠ [] := by
    intro hnil
    have hperm : r.checkout.coveredCriteria.Perm task.acceptanceCriteria := hacc.covered
    rw [hnil] at hperm
    exact task.criteria.1 (List.perm_nil.mp hperm.symm)
  obtain ⟨h₅, files, run, rfl, hqa⟩ := htests hcovered
  refine ⟨role, cmd, output, files, run, h₁ ++ h₅, h₄, hrole, hcmd, by simp,
    List.mem_append_left _ hdev, qualifies_of_passed hqa, ⟨status, hstatus, hclean ▸ hacc.clean⟩,
    ⟨tree, task, htree, htask, hsha ▸ hacc.tree⟩, fun path digest hget => ?_⟩
  exact hinspected.digests path digest ((hacc.hashes path).trans hget)

theorem Ready.aside (hr : Ready c id) (hstate : c.state? id ≠ some .verified)
    (ha : Aside id c c') : Ready c' id := by
  intro dep hdep
  rw [ha.dependencies] at hdep
  have hverified := hr dep hdep
  have hne : dep ≠ id := by
    rintro rfl
    exact hstate hverified
  rw [ha.state hne, hverified]

theorem conclude_stage (hs : l.Standing m₀ c h m) (hr : Ready c id)
    (hstate : c.state? id ≠ some .verified) {role : String} {cmd : List String}
    {h₀ : List (ServerEvent B)} (hrole : l.roleIn m₀ id = some role)
    (hcmd : commandFor l.commands id role = some cmd) (plan : DispatchPlan) (exitCode : Int)
    (hdev : exitCode = 0 → ∃ output, ⟨.runIsolated id cmd, .ok ⟨0, output⟩⟩ ∈ h₀) :
    l.Stage W m₀ h (fun c' h' f => l.Turn m₀ id c c' (h₀ ++ h') f ∧ Frees ledger id c c') m
      (l.conclude api id plan exitCode) := by
  rw [conclude]
  split
  next =>
    apply (releaseDispatch_stage hs).bind
    rintro m₁ c₁ h₁ _ hs₁ rfl
    apply (saveStatus_stage hs₁ _).bind
    rintro m₂ c₂ h₂ _ hs₂ rfl
    refine stage_ret hs₂ ⟨turn_failed aside_releaseDispatch ?_ _, fun _ _ hexact he =>
      he.release hexact⟩
    rwa [releaseDispatch_state]
  next hzero =>
    obtain ⟨output, hdev⟩ := hdev (not_not.mp hzero)
    apply (reportSuccess_stage hs plan exitCode).bind
    rintro m₁ c₁ h₁ evidence hs₁ ⟨haside₁, hbudget₁, hactive₁⟩
    have hr₁ : Ready c₁ id := hr.aside hstate haside₁
    apply (review_stage hs₁ hr₁ evidence).bind
    rintro m₂ c₂ h₂ d hs₂ ⟨r, rfl, hreviewed, hx⟩
    apply (settle_stage hs₂ plan evidence d).mono
    rintro c₃ h₃ f (⟨hd, rfl, rfl⟩ | ⟨hd, rfl, reason, rfl⟩)
    · obtain ⟨hverified, hreleases, task, htask, hacc⟩ := hreviewed.passed hd
      have hattested : l.Attested m₀ c₁ r.taskId (h₀ ++ h₁ ++ h₂) :=
        attested_of_accepting hrole hcmd (List.mem_append_left _ hdev) hx htask hacc
      have hturn : l.Turn m₀ r.taskId c₁ c₃ (h₀ ++ (h₁ ++ (h₂ ++ h₃))) none := by
        have hevents : h₀ ++ (h₁ ++ (h₂ ++ h₃)) = h₀ ++ h₁ ++ h₂ ++ h₃ := by
          simp only [List.append_assoc]
        rw [hevents]
        exact ⟨hreviewed.aside, fun _ => ⟨hverified, hattested.after h₃⟩, fun _ hf => by cases hf⟩
      exact ⟨hturn.since haside₁,
        fun _ _ hexact he => (he.congr hbudget₁ hactive₁).releases hexact hreleases⟩
    · refine ⟨turn_failed (haside₁.trans (hreviewed.aside.trans aside_releaseDispatch)) ?_ reason,
        fun _ _ hexact he => (he.congr hbudget₁ hactive₁).then_release hexact
          hreviewed.reservation⟩
      rw [releaseDispatch_state]
      exact hreviewed.failed hd

theorem executeDispatched_stage (hs : l.Standing m₀ c h m) (hr : Ready c id)
    (hstate : c.state? id ≠ some .verified) {role : String} {cmd : List String}
    (hrole : l.roleIn m₀ id = some role) (hcmd : commandFor l.commands id role = some cmd)
    (plan : DispatchPlan) :
    l.Stage W m₀ h (fun c' h' f => l.Turn m₀ id c c' h' f ∧ Frees ledger id c c') m
      (l.executeDispatched api id cmd plan) := by
  rw [executeDispatched]
  split
  next =>
    apply (releaseDispatch_stage hs).bind
    rintro m₁ c₁ h₁ _ hs₁ rfl
    refine stage_ret hs₁ ⟨turn_failed aside_releaseDispatch ?_ _, fun _ _ hexact he =>
      he.release hexact⟩
    rwa [releaseDispatch_state]
  next =>
    apply still_bind (Proc.only_when consult_still) hs
    intro m₁ h₁ _ hs₁
    apply (develop_stage hs₁ hr cmd).bind
    rintro m₂ c₂ h₂ exitCode hs₂ ⟨rfl, hdev⟩
    have hconclude : l.Stage W m₀ (h ++ h₁ ++ h₂) (fun c' h' f =>
        l.Turn m₀ id c₂ c' (h₂ ++ h') f ∧ Frees ledger id c₂ c') m₂
        (l.conclude api id plan exitCode) :=
      conclude_stage hs₂ hr hstate hrole hcmd plan exitCode hdev
    exact hconclude.mono fun c' h' f hturn => ⟨hturn.1.before h₁, hturn.2⟩

theorem executeTask_stage (hs : l.Standing m₀ c h m) :
    l.Stage W m₀ h (fun c' h' f => l.Turn m₀ id c c' h' f ∧ Balances ledger c c') m
      (l.executeTask api id) := by
  apply (freezeTask_stage hs).bind
  rintro m₁ c₁ h₁ role hs₁ ⟨hrole, haside₁, hbudget₁, hactive₁, hfrozen⟩
  have hbalance : ∀ {c'}, Balances ledger c₁ c' → Balances ledger c c' :=
    fun hb Dependable before hexact hsettled =>
      hb Dependable before hexact (hsettled.congr hbudget₁ hactive₁)
  split
  next =>
    apply (missingCommand_stage hs₁).mono
    rintro c₂ h₂ f ⟨rfl, reason, rfl⟩
    exact ⟨turn_failed haside₁ (by simp [hfrozen]) reason, hbalance fun _ _ _ hsettled => hsettled⟩
  next cmd hcmd =>
    apply (beginDispatch_stage hs₁).bind
    intro m₂ c₂ h₂ plan hs₂ hbegun
    have hstate : c₁.state? id ≠ some .verified := by simp [hfrozen]
    have hr : Ready c₂ id := Ready.aside hbegun.dependencies hstate hbegun.aside
    have hstate₂ : c₂.state? id ≠ some .verified := by simp [hbegun.state]
    have hdispatched : l.Stage W m₀ (h ++ h₁ ++ h₂) (fun c' h' f =>
        l.Turn m₀ id c₂ c' h' f ∧ Frees ledger id c₂ c') m₂
        (l.executeDispatched api id cmd plan) :=
      executeDispatched_stage hs₂ hr hstate₂ hrole hcmd plan
    apply hdispatched.mono
    rintro c₃ h₃ f ⟨hturn, hfrees⟩
    refine ⟨?_, hbalance (balances_of_begun hbegun hfrees)⟩
    exact ((hturn.before h₂).before h₁).since (haside₁.trans hbegun.aside)

/-! ## The tasks in their order -/

structure Walked (l : Lifecycle) (m₀ : Moment B) (ids : List String)
    (c c' : SupervisedCoordinator B) (h : List (ServerEvent B)) (f : Option Failure) : Prop where
  contract : ∀ id, c'.contract? id = c.contract? id
  testHashes : c'.testHashes = c.testHashes
  others : ∀ id, id ∉ ids → c'.tasks.get? id = c.tasks.get? id
  verified : f = none → ∀ id ∈ ids, c'.state? id = some .verified ∧ l.Attested m₀ c id h
  failed : ∀ f', f = some f' → ∃ done rest, ids = done ++ f'.failedTaskId :: rest ∧
    (∀ id ∈ done, c'.state? id = some .verified ∧ l.Attested m₀ c id h) ∧
    c'.state? f'.failedTaskId ≠ some .verified ∧ ∀ id ∈ rest, c'.tasks.get? id = c.tasks.get? id

theorem Turn.stops {f : Failure} {ids : List String} (ht : l.Turn m₀ id c c' h (some f))
    (hid : id ∉ ids) : l.Walked m₀ (id :: ids) c c' h (some f) where
  contract := ht.aside.contract
  testHashes := ht.aside.testHashes
  others id' hid' := ht.aside.tasks id' fun heq => hid' (heq ▸ List.mem_cons_self)
  verified hf := by cases hf
  failed f' hf := by
    cases hf
    obtain ⟨rfl, hstate⟩ := ht.failed f rfl
    refine ⟨[], ids, rfl, List.forall_mem_nil _, hstate, fun id' hid' => ?_⟩
    exact ht.aside.tasks id' fun heq => hid (heq ▸ hid')

theorem Turn.goesOn {ids : List String} {f : Option Failure} (ht : l.Turn m₀ id c c' h none)
    (hid : id ∉ ids) (hw : l.Walked m₀ ids c' c'' h' f) :
    l.Walked m₀ (id :: ids) c c'' (h ++ h') f := by
  obtain ⟨hverified, hattested⟩ := ht.verified rfl
  have hhead : c''.state? id = some .verified ∧ l.Attested m₀ c id (h ++ h') := by
    refine ⟨?_, hattested.after h'⟩
    rw [← hverified, SupervisedCoordinator.state?, hw.others id hid,
      ← SupervisedCoordinator.state?]
  have hrest : ∀ {id'}, l.Attested m₀ c' id' h' → l.Attested m₀ c id' (h ++ h') := fun ha =>
    (ha.congr (ht.aside.contract _).symm ht.aside.testHashes.symm).before h
  refine ⟨fun id' => (hw.contract id').trans (ht.aside.contract id'),
    hw.testHashes.trans ht.aside.testHashes, fun id' hid' => ?_, fun hf => ?_, fun f' hf => ?_⟩
  · rw [List.mem_cons, not_or] at hid'
    obtain ⟨hne, hnot⟩ := hid'
    exact (hw.others id' hnot).trans (ht.aside.tasks id' hne)
  · refine List.forall_mem_cons.mpr ⟨hhead, fun id' hid' => ?_⟩
    exact ⟨(hw.verified hf id' hid').1, hrest (hw.verified hf id' hid').2⟩
  · obtain ⟨done, rest, rfl, hdone, hstate, hlater⟩ := hw.failed f' hf
    refine ⟨id :: done, rest, rfl, ?_, hstate, fun id' hid' => ?_⟩
    · exact List.forall_mem_cons.mpr
        ⟨hhead, fun id' hid' => ⟨(hdone id' hid').1, hrest (hdone id' hid').2⟩⟩
    · have hne : id' ≠ id := by
        rintro rfl
        exact hid (List.mem_append_right _ (List.mem_cons_of_mem _ hid'))
      exact (hlater id' hid').trans (ht.aside.tasks id' hne)

theorem executeTasks_stage (ids : List String) (hn : ids.Nodup) (hs : l.Standing m₀ c h m) :
    l.Stage W m₀ h (fun c' h' f => l.Walked m₀ ids c c' h' f ∧ Balances ledger c c') m
      (l.executeTasks api ids) := by
  induction ids generalizing m c h with
  | nil =>
    refine stage_ret hs ⟨⟨fun _ => rfl, rfl, fun _ _ => rfl, ?_, ?_⟩,
      fun _ _ _ hsettled => hsettled⟩
    · exact fun _ => List.forall_mem_nil _
    · exact fun _ hf => by cases hf
  | cons id ids ih =>
    obtain ⟨hid, hn⟩ := List.nodup_cons.mp hn
    have htask : l.Stage W m₀ h (fun c' h' f => l.Turn m₀ id c c' h' f ∧ Balances ledger c c') m
        (l.executeTask api id) := executeTask_stage hs
    apply htask.bind
    rintro m₁ c₁ h₁ f hs₁ ⟨hturn, hbalance⟩
    split
    next f => exact stage_ret hs₁ ⟨by rw [List.append_nil]; exact hturn.stops hid, hbalance⟩
    next =>
      apply (ih hn hs₁).mono
      rintro c₂ h₂ f ⟨hwalked, hbalance₂⟩
      exact ⟨hturn.goesOn hid hwalked, fun Dependable before hexact hsettled =>
        hbalance₂ Dependable before hexact (hbalance Dependable before hexact hsettled)⟩

/-! ## The whole lifecycle -/

/-- What an answer of the lifecycle vouches for. -/
def Vouches (l : Lifecycle) (m₀ : Moment B) (c c' : SupervisedCoordinator B)
    (h : List (ServerEvent B)) : LifecycleResult → Prop
  | .completed _ => ∀ id ∈ c.order, c'.state? id = some .verified ∧ l.Attested m₀ c id h
  | .failed f => ∃ done rest, c.order = done ++ f.failedTaskId :: rest ∧
      (∀ id ∈ done, c'.state? id = some .verified ∧ l.Attested m₀ c id h) ∧
      c'.state? f.failedTaskId ≠ some .verified ∧
      ∀ id ∈ rest, c'.state? id = some .created ∧ c'.tasks.get? id = c.tasks.get? id

/-- The state in which a lifecycle returns: the answer is right, with every task proven if it
completed and its answers were candid, and the reservations are those that were there before, on
a ledger that releases what it holds. -/
def Sound (ledger : Ledger api) (l : Lifecycle) (m₀ : Moment B) (c : SupervisedCoordinator B)
    (m : Moment B) (result : LifecycleResult) : Prop :=
  ∃ c' h, m.state.memory.coordinator? l.workspace = some c' ∧ m.history = m₀.history ++ h ∧
    l.Vouches m₀ c c' h result ∧
    ((∀ e ∈ h, l.Candid c e) → ∀ tasks, result = .completed tasks →
      ∀ id ∈ c.order, l.Proven m₀ c id h) ∧
    ∀ Dependable, Exact ledger Dependable → Dependable c.budget →
      ∀ x, ledger.Holds c'.budget x ↔ ledger.Holds c.budget x

structure Fresh (c : SupervisedCoordinator B) : Prop where
  order : c.order.Nodup
  active : ∀ id, c.activeIds.get? id = none
  created : ∀ id ∈ c.order, c.state? id = some .created

theorem fresh_of_create {run : Domain.Run} {tasks : Dict String Task}
    {dependencies : Dict String (List String)} {identities : IdentityRegistry}
    {receipts : ReceiptIssuerRegistry} {budget : B} {pins : Dict String String}
    (hcreate : SupervisedCoordinator.create run tasks dependencies identities receipts budget pins =
      .ok c) : Fresh c := by
  simp only [SupervisedCoordinator.create, bind_ok, require_ok] at hcreate
  obtain ⟨_, ⟨-, -, hkeys⟩, _, -, order, horder, _, -, hcreate⟩ := hcreate
  cases hcreate
  obtain ⟨hnodup, hmem⟩ := validateTaskDag_ok horder
  refine ⟨hnodup, fun _ => rfl, fun id hid => ?_⟩
  rw [SupervisedCoordinator.state?, Dict.get?_mapValues]
  cases hget : tasks.get? id with
  | none => exact absurd (hkeys id ((hmem id).mp hid)) (Dict.notMem_keys.mpr hget)
  | some task => rfl

theorem enterRun_still : (l.enterRun : Call B Unit).Only Op.still := by
  apply Proc.only_op_bind ⟨rfl, rfl⟩
  intro run
  split
  next => trivial
  next => exact (Proc.only_op _).mpr ⟨rfl, rfl⟩

theorem Walked.vouches {f : Option Failure} (hfresh : Fresh c)
    (hw : l.Walked m₀ c.order c c' h f) (tasks : List TaskRecord) :
    l.Vouches m₀ c c' h ((f.map .failed).getD (.completed tasks)) := by
  cases f with
  | none => exact hw.verified rfl
  | some f =>
    obtain ⟨done, rest, horder, hdone, hstate, hrest⟩ := hw.failed f rfl
    refine ⟨done, rest, horder, hdone, hstate, fun id hid => ⟨?_, hrest id hid⟩⟩
    rw [SupervisedCoordinator.state?, hrest id hid, ← SupervisedCoordinator.state?]
    apply hfresh.created
    rw [horder]
    exact List.mem_append_right _ (List.mem_cons_of_mem _ hid)

theorem Vouches.before {result : LifecycleResult} (hv : l.Vouches m₀ c c' h result)
    (h' : List (ServerEvent B)) : l.Vouches m₀ c c' (h' ++ h) result := by
  have hall : ∀ {ids : List String},
      (∀ id ∈ ids, c'.state? id = some .verified ∧ l.Attested m₀ c id h) →
      ∀ id ∈ ids, c'.state? id = some .verified ∧ l.Attested m₀ c id (h' ++ h) :=
    fun hids id hid => ⟨(hids id hid).1, (hids id hid).2.before h'⟩
  cases result with
  | completed tasks => exact hall hv
  | failed f =>
    obtain ⟨done, rest, horder, hdone, hrest⟩ := hv
    exact ⟨done, rest, horder, hall hdone, hrest⟩

theorem execute_stage (hfresh : Fresh c) (hs : l.Standing m₀ c h m) :
    l.Stage W m₀ h (fun c' h' result => l.Vouches m₀ c c' h' result ∧ Balances ledger c c') m
      (l.execute api) := by
  apply still_bind (Proc.only_when enterRun_still) hs
  intro m₁ h₁ _ hs₁
  apply (stage_memory hs₁).bind
  rintro m₂ c₂ h₂ memory hs₂ ⟨rfl, rfl⟩
  rw [hs₁.coordinator]
  have htasks : l.Stage W m₀ (h ++ h₁ ++ h₂) (fun c' h' f =>
      l.Walked m₀ c₂.order c₂ c' h' f ∧ Balances ledger c₂ c') m₂ (l.executeTasks api c₂.order) :=
    executeTasks_stage c₂.order hfresh.order hs₂
  apply htasks.bind
  rintro m₃ c₃ h₃ f hs₃ ⟨hwalked, hbalance⟩
  split
  next f =>
    refine stage_ret hs₃ ⟨?_, hbalance⟩
    rw [List.append_nil]
    exact ((hwalked.vouches hfresh []).before h₂).before h₁
  next =>
    apply (stage_memory hs₃).bind
    rintro m₄ c₄ h₄ memory hs₄ ⟨rfl, rfl⟩
    refine stage_ret hs₄ ⟨?_, hbalance⟩
    intro id hid
    obtain ⟨hverified, hattested⟩ := hwalked.verified rfl id hid
    exact ⟨hverified, (((hattested.after _).before h₂).before h₁)⟩

section Sample

def sampleMember (role : Role) : Principal := ⟨role.value, role, "secret"⟩

def sampleMembers : IdentityRegistry :=
  ⟨[Role.pm, Role.developer, Role.qa, Role.executor].map fun role => (role.value, role, "secret")⟩

def sampleDigest : String := .ofList (List.replicate 64 '1')

def sampleCoordinator (pin : String) : Option (SupervisedCoordinator BudgetLedger) := do
  let first ← (Task.create "A" "run" ["AC"] "t1" "policy").toOption
  let second ← (Task.create "B" "run" ["AC"] "t1" "policy").toOption
  (SupervisedCoordinator.create ⟨"run", "w", "policy"⟩ [("A", first), ("B", second)]
    [("A", []), ("B", ["A"])] sampleMembers .empty ⟨1000, 20000, 1, []⟩
    [("tests/t", pin)]).toOption

def sampleLifecycle : Lifecycle where
  runId := "run"
  workspace := "/w"
  pm := sampleMember .pm
  developer := sampleMember .developer
  qa := sampleMember .qa
  executor := sampleMember .executor
  commands := [("default", ["make"])]
  useStore := false
  consultModel := false
  providerTermsApproved := false

def sampleMoment (c : SupervisedCoordinator BudgetLedger) : Moment BudgetLedger where
  state.memory.runs := []
  state.memory.tasks :=
    [("run", [TaskDecomposer.pendingRecord "A" "run" "Build it" "DEVELOPER" [],
      TaskDecomposer.pendingRecord "B" "run" "Ship it" "DEVELOPER" ["A"]])]
  state.memory.runCommands := []
  state.memory.approvedCommands := []
  state.memory.pending := []
  state.memory.systems := [("/w", ⟨sampleMembers, .empty, c.budget, c.testHashes, some c⟩)]
  state.db := .empty
  history := []

def soundWorld : World BudgetLedger where
  tree := (some (0, "t1"), "")
  status := some (0, [])
  present := true
  digest := some sampleDigest
  process := .exited 0 ""
  qaRun := ⟨0, .report (.node "testsuite" [("tests", some 1)] []), ""⟩

/-- An environment whose tests remove the pinned file and write no report. -/
def strayWorld : World BudgetLedger :=
  { soundWorld with digest := none, qaRun := ⟨0, .empty, "Ran 1 test\nFAILED (failures=1)\nOK"⟩ }

def sampleRun (w : World BudgetLedger) (c : SupervisedCoordinator BudgetLedger) :
    Option (Except Error LifecycleResult × Moment BudgetLedger) :=
  (sampleLifecycle.execute BudgetLedger.api).eval (runtime BudgetLedger)
    ((List.range 80).map fun n => { w with text := .ofList (List.replicate (n + 1) 'u') })
    (sampleMoment c)

theorem create_of_sample {pin : String} {c : SupervisedCoordinator BudgetLedger}
    (h : sampleCoordinator pin = some c) : ∃ tasks dependencies,
      SupervisedCoordinator.create ⟨"run", "w", "policy"⟩ tasks dependencies sampleMembers .empty
        ⟨1000, 20000, 1, []⟩ [("tests/t", pin)] = .ok c := by
  simp only [sampleCoordinator, Option.bind_eq_bind, Option.bind_eq_some_iff] at h
  obtain ⟨first, -, second, -, h⟩ := h
  exact ⟨_, _, ok_of_toOption h⟩

def tasksOf : LifecycleResult → Option (List TaskRecord)
  | .completed tasks => some tasks
  | .failed _ => none

theorem completed_of_tasks {result : LifecycleResult} {tasks : List TaskRecord}
    (h : tasksOf result = some tasks) : result = .completed tasks := by
  cases result with
  | completed tasks' => exact congrArg LifecycleResult.completed (Option.some.inj h)
  | failed f => cases h

def isCandid : ServerEvent BudgetLedger → Bool
  | ⟨.runQa _ _, .ok run⟩ => !contains run.outputText "FAILED"
  | ⟨.fileDigest _, .ok answer⟩ => answer.isSome
  | _ => true

theorem candid_of_isCandid {l : Lifecycle} {c : SupervisedCoordinator BudgetLedger}
    {e : ServerEvent BudgetLedger} (h : isCandid e = true) : l.Candid c e := by
  obtain ⟨o, x⟩ := e
  cases o with
  | runQa taskId files =>
    cases x with
    | ok run =>
      intro hm
      simp [isCandid, hm.failed] at h
    | error e => trivial
  | fileDigest path =>
    cases x with
    | ok answer =>
      cases answer with
      | some digest => trivial
      | none => cases h
    | error e => trivial
  | _ => trivial

def answeredDigest : ServerEvent BudgetLedger → Option (Option String)
  | ⟨.fileDigest _, .ok answer⟩ => some answer
  | _ => none

def answeredOutput : ServerEvent BudgetLedger → Option String
  | ⟨.runQa _ _, .ok run⟩ => some run.outputText
  | _ => none

end Sample

end Lifecycle

end SubagentBridge.Server
