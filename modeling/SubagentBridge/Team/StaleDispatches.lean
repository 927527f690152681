import SubagentBridge.Team.Reservations

/-! One task and the registries around it: what may move the task on, and how its dispatches are
numbered. -/

namespace SubagentBridge.Team

open Library Domain

structure TaskDesk where
  agg : TaskAggregate
  identities : IdentityRegistry
  receipts : ReceiptIssuerRegistry
  made : List (QaVerdict × List Evidence)
  calls : Nat

namespace TaskDesk

inductive Request
  | register (principalId : String) (role : Role) (secret : String)
  | issue (executor : Principal) (s : Scope) (exitCode : Int)
  | createEvidence (receiptId : String) (s : Scope)
  | createQaVerdict (qa : Principal) (evidence : List Evidence) (s : Scope) (accepted : Bool)
  | freeze (pm : Principal)
  | dispatch (pm : Principal) (idempotencyKey : String)
  | processSucceeded (dispatchId treeSha : String)
  | qaVerified (qa : Principal) (verdict : QaVerdict)
  | markVerified (qa : Principal)
  | changeTree (newTreeSha : String)
  | reconcile (pm : Principal) (newTreeSha : Option String)
  | block
  | recoverUnknown

def orKeep (s : TaskDesk) (agg : Except Error TaskAggregate) : TaskDesk :=
  { s with agg := agg.toOption.getD s.agg }

def serve (uuid4 : String) (s : TaskDesk) : Request → TaskDesk
  | .register principalId role secret =>
    match s.identities.register principalId role secret with
    | .ok (_, identities) => { s with identities }
    | .error _ => s
  | .issue executor sc exitCode =>
    match s.receipts.issue s.identities uuid4 executor sc exitCode with
    | .ok (_, receipts) => { s with receipts }
    | .error _ => s
  | .createEvidence receiptId sc =>
    match s.receipts.createEvidence uuid4 receiptId sc with
    | .ok (_, receipts) => { s with receipts }
    | .error _ => s
  | .createQaVerdict qa evidence sc accepted =>
    match s.receipts.createQaVerdict s.identities uuid4 qa evidence sc accepted with
    | .ok (v, receipts) => { s with receipts, made := (v, evidence) :: s.made }
    | .error _ => s
  | .freeze pm => s.orKeep (s.agg.freeze s.identities pm)
  | .dispatch pm idempotencyKey =>
    { s with agg := (s.agg.dispatch s.identities uuid4 pm idempotencyKey).2 }
  | .processSucceeded dispatchId treeSha => s.orKeep (s.agg.processSucceeded dispatchId treeSha)
  | .qaVerified qa verdict => s.orKeep (s.agg.qaVerified s.identities s.receipts qa verdict)
  | .markVerified qa => s.orKeep (s.agg.markVerified s.identities qa)
  | .changeTree newTreeSha => s.orKeep (s.agg.changeTree newTreeSha)
  | .reconcile pm newTreeSha => s.orKeep (s.agg.reconcile s.identities pm newTreeSha)
  | .block => { s with agg := s.agg.block }
  | .recoverUnknown => { s with agg := s.agg.recoverUnknown }

variable (uuid4 : Nat → String)

def step (s : TaskDesk) (q : Request) : Option TaskDesk :=
  some { serve (uuid4 s.calls) s q with calls := s.calls + 1 }

def initial (task : Task) : TaskDesk := ⟨.create task, .empty, .empty, [], 0⟩

/-! ## What a run contains -/

def returned (s : TaskDesk) : Request → List Dispatch
  | .dispatch pm key => (s.agg.dispatch s.identities (uuid4 s.calls) pm key).1.toOption.toList
  | _ => []

def dispatches (s₀ : TaskDesk) (ls : List Request) : List Dispatch :=
  trace (step uuid4) (returned uuid4) s₀ ls

inductive Reopens (s : TaskDesk) : Request → Prop
  | dispatch (pm : Principal) (key : String) (d : Dispatch) :
      d ∈ returned uuid4 s (.dispatch pm key) → Reopens s (.dispatch pm key)
  | tree (q : Request) : (serve (uuid4 s.calls) s q).agg.task.treeSha ≠ s.agg.task.treeSha →
      Reopens s q
  | reconcile (pm : Principal) (newTreeSha : Option String) (agg : TaskAggregate) :
      s.agg.reconcile s.identities pm newTreeSha = .ok agg → Reopens s (.reconcile pm newTreeSha)

/-- The run has a dispatch under the identifier, and later a call that reopens the task. -/
def Superseded (s₀ : TaskDesk) (ls : List Request) (x : String) : Prop :=
  ∃ ls₁ s₁ q₁ t₁ ls₂ s₂ q₂ ls₃, ls = ls₁ ++ q₁ :: (ls₂ ++ q₂ :: ls₃) ∧
    Library.Run (step uuid4) s₀ ls₁ s₁ ∧ step uuid4 s₁ q₁ = some t₁ ∧
    (∃ d ∈ returned uuid4 s₁ q₁, d.dispatchId = x) ∧ Library.Run (step uuid4) t₁ ls₂ s₂ ∧
    Reopens uuid4 s₂ q₂

def Advances (s : TaskDesk) (q : Request) : Prop :=
  let state := (serve (uuid4 s.calls) s q).agg.state
  state ≠ s.agg.state ∧
    (state = .processSucceeded ∨ state = .qaVerified ∨ state = .verified)

/-- The verdict, or evidence that it was made of, was made for the dispatch and the tree. -/
def MadeFor (s : TaskDesk) (v : QaVerdict) (dispatchId treeSha : String) : Prop :=
  v.dispatchId = dispatchId ∧ v.treeSha = treeSha ∨
    ∃ es, (v, es) ∈ s.made ∧ ∃ e ∈ es, e.dispatchId = dispatchId ∧ e.treeSha = treeSha

/-- The report or the verdict that the call rests on is about the dispatch and the tree. -/
inductive RestsOn (s : TaskDesk) : Request → String → String → Prop
  | report (dispatchId treeSha : String) :
      RestsOn s (.processSucceeded dispatchId treeSha) dispatchId treeSha
  | verdict (qa : Principal) (v : QaVerdict) {dispatchId treeSha : String} :
      MadeFor s v dispatchId treeSha → RestsOn s (.qaVerified qa v) dispatchId treeSha
  | mark (qa : Principal) (v : QaVerdict) {dispatchId treeSha : String} :
      s.agg.qaVerdict = some v → MadeFor s v dispatchId treeSha →
      RestsOn s (.markVerified qa) dispatchId treeSha

structure Numbered (ds : List Dispatch) : Prop where
  attempts : ds.map (·.attempt) = List.range' 1 ds.length
  keys : (ds.map (·.idempotencyKey)).Nodup

structure Admits (s : TaskDesk) (pm : Principal) (key : String) : Prop where
  manager : s.identities.require pm .pm = .ok ()
  frozen : s.agg.state = .frozen
  given : key ≠ ""
  new : key ∉ s.agg.usedKeys

def ProperKey (s : TaskDesk) : Request → Prop
  | .dispatch pm key => Admits s pm key → Identity key
  | _ => True

/-! ## What a call does to the task -/

section Turns

variable {uuid4 : Nat → String} {s t : TaskDesk} {q : Request} {agg agg' : TaskAggregate}

inductive Turn (uuid4 : Nat → String) (s : TaskDesk) (q : Request) (agg' : TaskAggregate) : Prop
  | same : agg' = s.agg → returned uuid4 s q = [] → Turn uuid4 s q agg'
  | resets : (∀ d, agg'.activeDispatch = some d → s.agg.activeDispatch = some d) →
      agg'.state ≠ .processSucceeded ∧ agg'.state ≠ .qaVerified ∧ agg'.state ≠ .verified →
      agg'.attempt = s.agg.attempt → agg'.usedKeys = s.agg.usedKeys →
      (agg'.task.treeSha ≠ s.agg.task.treeSha → agg'.activeDispatch = none) →
      returned uuid4 s q = [] → Turn uuid4 s q agg'
  | refuses (key : String) : ¬ (Identity (uuid4 s.calls) ∧ ProperKey s q) → s.agg.state = .frozen →
      agg' = keyUsed s.agg key → returned uuid4 s q = [] → Turn uuid4 s q agg'
  | begins (d : Dispatch) : d.dispatchId = uuid4 s.calls → d.attempt = s.agg.attempt + 1 →
      d.idempotencyKey ∉ s.agg.usedKeys → agg' = { keyUsed s.agg d.idempotencyKey with
        activeDispatch := some d, state := .dispatched } →
      returned uuid4 s q = [d] → Turn uuid4 s q agg'
  | reports (d : Dispatch) : s.agg.activeDispatch = some d →
      q = .processSucceeded d.dispatchId s.agg.task.treeSha →
      agg' = { s.agg with state := .processSucceeded } → Turn uuid4 s q agg'
  | accepts (qa : Principal) (v : QaVerdict) (d : Dispatch) : s.agg.activeDispatch = some d →
      q = .qaVerified qa v → v.dispatchId = d.dispatchId → v.treeSha = s.agg.task.treeSha →
      agg' = { s.agg with qaVerdict := some v, state := .qaVerified } → Turn uuid4 s q agg'
  | marks (qa : Principal) (v : QaVerdict) : s.agg.state = .qaVerified →
      s.agg.qaVerdict = some v → q = .markVerified qa → agg' = { s.agg with
        state := .verified, verifiedTreeSha := some s.agg.task.treeSha } → Turn uuid4 s q agg'

theorem orKeep_turn {x : Except Error TaskAggregate} (hq : returned uuid4 s q = [])
    (h : ∀ agg', x = .ok agg' → Turn uuid4 s q agg') : Turn uuid4 s q (s.orKeep x).agg := by
  cases x with
  | error e => exact .same rfl hq
  | ok agg' => exact h agg' rfl

theorem Admits.dispatch {pm : Principal} {key : String} (h : Admits s pm key) :
    s.agg.dispatch s.identities (uuid4 s.calls) pm key =
      orRaise (Dispatch.create (uuid4 s.calls) s.agg.task.taskId (s.agg.attempt + 1) key
        s.agg.task.treeSha s.agg.task.policyRevision) (keyUsed s.agg key) fun d =>
        (.ok d, { keyUsed s.agg key with activeDispatch := some d, state := .dispatched }) := by
  simp [TaskAggregate.dispatch, h.manager, h.frozen, h.given, h.new, require, keyUsed]

theorem dispatch_refused (uuid4 : Nat → String) {pm : Principal} {key : String}
    (h : ¬ Admits s pm key) :
    ∃ e, s.agg.dispatch s.identities (uuid4 s.calls) pm key = (.error e, s.agg) := by
  rw [TaskAggregate.dispatch]
  cases hpm : s.identities.require pm .pm with
  | error e => exact ⟨e, rfl⟩
  | ok _ =>
    rw [orRaise_ok, require]
    split
    next hs =>
      rw [orRaise_ok, require, if_neg fun hkey => h ⟨hpm, hs, hkey.1, hkey.2⟩]
      exact ⟨_, rfl⟩
    next => exact ⟨_, rfl⟩

theorem dispatch_turn (pm : Principal) (key : String) :
    Turn uuid4 s (.dispatch pm key) (s.agg.dispatch s.identities (uuid4 s.calls) pm key).2 := by
  by_cases h : Admits s pm key
  · have hcreate : (∃ d, Dispatch.create (uuid4 s.calls) s.agg.task.taskId (s.agg.attempt + 1) key
        s.agg.task.treeSha s.agg.task.policyRevision = .ok d) ↔ _ :=
      create_iff _ _ _ _
    rw [h.dispatch]
    cases hd : Dispatch.create (uuid4 s.calls) s.agg.task.taskId (s.agg.attempt + 1) key
        s.agg.task.treeSha s.agg.task.policyRevision with
    | error e =>
      refine .refuses key ?_ h.frozen rfl (by simp [returned, h.dispatch, hd, Except.toOption])
      rintro ⟨hid, hproper⟩
      obtain ⟨d, hd'⟩ := hcreate.mpr ⟨hid, hproper h⟩
      cases hd.symm.trans hd'
    | ok d =>
      have hret : returned uuid4 s (.dispatch pm key) = [d] := by
        simp [returned, h.dispatch, hd, Except.toOption]
      simp only [Dispatch.create, bind_ok] at hd
      obtain ⟨_, -, _, -, _, -, _, -, _, -, _, -, hd⟩ := hd
      cases hd
      exact .begins _ rfl rfl h.new rfl hret
  · obtain ⟨e, he⟩ := dispatch_refused uuid4 h
    exact .same (by rw [he]) (by simp [returned, he, Except.toOption])

theorem changeTree_turn (tree : String) :
    Turn uuid4 s (.changeTree tree) (s.orKeep (s.agg.changeTree tree)).agg := by
  refine orKeep_turn rfl fun agg' h => ?_
  rw [TaskAggregate.changeTree] at h
  obtain ⟨_, -, h⟩ := bind_ok.mp h
  split at h
  next =>
    cases h
    exact .same rfl rfl
  next =>
    obtain ⟨_, -, h⟩ := bind_ok.mp h
    obtain ⟨task, -, h⟩ := bind_ok.mp h
    cases h
    exact .resets (by simp) (by simp) rfl rfl (fun _ => rfl) rfl

theorem qaVerified_turn (qa : Principal) (v : QaVerdict) : Turn uuid4 s (.qaVerified qa v)
    (s.orKeep (s.agg.qaVerified s.identities s.receipts qa v)).agg := by
  refine orKeep_turn rfl fun agg' h => ?_
  simp only [TaskAggregate.qaVerified, bind_ok] at h
  obtain ⟨_, -, h⟩ := h
  split at h
  next d hs hd =>
    simp only [ReceiptIssuerRegistry.requireVerdict, bind_ok, require_ok] at h
    obtain ⟨_, ⟨_, -, _, hscope, -⟩, _, -, h⟩ := h
    cases h
    obtain ⟨-, hid, htree⟩ := Scope.mk.inj hscope
    exact .accepts qa v d hd rfl hid htree rfl
  next => cases h

theorem serve_turn (uuid4 : Nat → String) (s : TaskDesk) (q : Request) :
    Turn uuid4 s q (serve (uuid4 s.calls) s q).agg := by
  cases q with
  | register => rw [serve]; split <;> exact .same rfl rfl
  | issue => rw [serve]; split <;> exact .same rfl rfl
  | createEvidence => rw [serve]; split <;> exact .same rfl rfl
  | createQaVerdict => rw [serve]; split <;> exact .same rfl rfl
  | freeze pm =>
    refine orKeep_turn rfl fun agg' h => ?_
    simp only [TaskAggregate.freeze, bind_ok] at h
    obtain ⟨_, -, _, -, h⟩ := h
    cases h
    exact .resets (fun _ h => h) (by simp) rfl rfl (fun h => absurd rfl h) rfl
  | dispatch pm key => exact dispatch_turn pm key
  | processSucceeded x tree =>
    refine orKeep_turn rfl fun agg' h => ?_
    simp only [TaskAggregate.processSucceeded, TaskAggregate.requireCurrent, bind_ok,
      require_ok] at h
    obtain ⟨_, ⟨d, hd, rfl, -, rfl⟩, _, -, h⟩ := h
    cases h
    exact .reports d hd rfl rfl
  | qaVerified qa v => exact qaVerified_turn qa v
  | markVerified qa =>
    refine orKeep_turn rfl fun agg' h => ?_
    simp only [TaskAggregate.markVerified, bind_ok] at h
    obtain ⟨_, -, h⟩ := h
    split at h
    next v hs hv =>
      obtain ⟨_, -, h⟩ := bind_ok.mp h
      cases h
      exact .marks qa v hs hv rfl rfl
    next => cases h
  | changeTree tree => exact changeTree_turn tree
  | reconcile pm tree =>
    refine orKeep_turn rfl fun agg' h => ?_
    simp only [TaskAggregate.reconcile, bind_ok] at h
    obtain ⟨_, -, _, -, task, -, h⟩ := h
    cases h
    exact .resets (by simp) (by simp) rfl rfl (fun _ => rfl) rfl
  | block =>
    refine .resets (fun _ h => h) ⟨?_, ?_, ?_⟩ rfl rfl (fun h => absurd rfl h) rfl
    all_goals exact TaskState.noConfusion
  | recoverUnknown =>
    refine .resets (fun _ h => h) ⟨?_, ?_, ?_⟩ rfl rfl (fun h => absurd rfl h) rfl
    all_goals exact TaskState.noConfusion

theorem Turn.dispatch (h : Turn uuid4 s q agg') {d : Dispatch} (hd : agg'.activeDispatch = some d) :
    s.agg.activeDispatch = some d ∨ d.dispatchId = uuid4 s.calls := by
  cases h with
  | same heq => exact .inl (heq ▸ hd)
  | resets hdispatch => exact .inl (hdispatch d hd)
  | begins d' hid _ _ heq =>
    subst heq
    cases hd
    exact .inr hid
  | refuses _ _ _ heq | reports _ _ _ heq | accepts _ _ _ _ _ _ _ heq | marks _ _ _ _ _ heq =>
    subst heq
    exact .inl hd

theorem Turn.tree (h : Turn uuid4 s q agg') (hne : agg'.task.treeSha ≠ s.agg.task.treeSha) :
    agg'.activeDispatch = none := by
  cases h with
  | resets _ _ _ _ hnone => exact hnone hne
  | same heq | refuses _ _ _ heq | begins _ _ _ _ heq | reports _ _ _ heq
  | accepts _ _ _ _ _ _ _ heq | marks _ _ _ _ _ heq =>
    subst heq
    exact absurd rfl hne

/-! ## What every run keeps -/

/-- A verdict was made of evidence for its own dispatch and tree, and what QA accepted is about the
current dispatch. -/
structure Sound (uuid4 : Nat → String) (s : TaskDesk) : Prop where
  drawn : ∀ d, s.agg.activeDispatch = some d → ∃ i < s.calls, d.dispatchId = uuid4 i
  made : ∀ v es, (v, es) ∈ s.made → ∀ e ∈ es, e.scope = v.scope
  accepted : s.agg.state = .qaVerified → ∃ v d, s.agg.qaVerdict = some v ∧
    s.agg.activeDispatch = some d ∧ v.dispatchId = d.dispatchId ∧ v.treeSha = s.agg.task.treeSha

theorem evidence_scope {reg reg' : ReceiptIssuerRegistry} {identities : IdentityRegistry}
    {qa : Principal} {es : List Evidence} {sc : Scope} {accepted : Bool}
    {v : QaVerdict} {x : String}
    (h : reg.createQaVerdict identities x qa es sc accepted = .ok (v, reg')) :
    ∀ e ∈ es, e.scope = v.scope := by
  simp only [ReceiptIssuerRegistry.createQaVerdict, bind_ok] at h
  obtain ⟨_, -, _, -, _, -, _, hall, hv⟩ := h
  cases hv
  intro e he
  have hcheck := forM_ok hall e he
  simp only [ReceiptIssuerRegistry.checkItem, bind_ok, require_ok] at hcheck
  obtain ⟨_, -, _, hscope, -⟩ := hcheck
  exact hscope

theorem serve_made (h : ∀ v es, (v, es) ∈ s.made → ∀ e ∈ es, e.scope = v.scope) {x : String} :
    ∀ v es, (v, es) ∈ (serve x s q).made → ∀ e ∈ es, e.scope = v.scope := by
  cases q with
  | register => rw [serve]; split <;> exact h
  | issue => rw [serve]; split <;> exact h
  | createEvidence => rw [serve]; split <;> exact h
  | createQaVerdict qa es sc accepted =>
    rw [serve]
    split
    next v receipts hv =>
      intro v' es' hmem
      rcases List.mem_cons.mp hmem with heq | hmem
      · cases heq
        exact evidence_scope hv
      · exact h v' es' hmem
    next => exact h
  | _ => exact h

theorem Sound.kept (hs : Sound uuid4 s) (h : step uuid4 s q = some t) : Sound uuid4 t := by
  cases h
  have hlater : ∀ d : Dispatch, (∃ i < s.calls, d.dispatchId = uuid4 i) →
      ∃ i < s.calls + 1, d.dispatchId = uuid4 i :=
    fun d ⟨i, hi, hd⟩ => ⟨i, Nat.lt_succ_of_lt hi, hd⟩
  have hturn := serve_turn uuid4 s q
  refine ⟨?_, serve_made hs.made, ?_⟩
  all_goals dsimp only
  all_goals generalize (serve (uuid4 s.calls) s q).agg = agg' at hturn ⊢
  · intro d hd
    rcases hturn.dispatch hd with hd | hid
    · exact hlater d (hs.drawn d hd)
    · exact ⟨s.calls, Nat.lt_succ_self _, hid⟩
  · intro hstate
    cases hturn with
    | same heq => exact heq ▸ hs.accepted (heq ▸ hstate)
    | resets _ hne => exact absurd hstate hne.2.1
    | refuses key _ hf heq =>
      subst heq
      cases hf.symm.trans hstate
    | begins _ _ _ _ heq => subst heq; cases hstate
    | reports _ _ _ heq => subst heq; cases hstate
    | accepts qa v d hd _ hid htree heq =>
      subst heq
      exact ⟨v, d, rfl, hd, hid, htree⟩
    | marks _ _ _ _ _ heq => subst heq; cases hstate

theorem restsOn_current {v : QaVerdict} {x tree : String} (hs : Sound uuid4 s)
    (h : MadeFor s v x tree) : x = v.dispatchId ∧ tree = v.treeSha := by
  rcases h with ⟨rfl, rfl⟩ | ⟨es, hmem, e, he, rfl, rfl⟩
  · exact ⟨rfl, rfl⟩
  · obtain ⟨-, hid, htree⟩ := Scope.mk.inj (hs.made v es hmem e he)
    exact ⟨hid, htree⟩

/-- The task moves on by a report or a verdict about its current dispatch and tree, and by
nothing else. -/
theorem advances_current (hs : Sound uuid4 s) (h : Advances uuid4 s q) :
    ∃ d, s.agg.activeDispatch = some d ∧ RestsOn s q d.dispatchId s.agg.task.treeSha ∧
      ∀ x tree, RestsOn s q x tree → x = d.dispatchId ∧ tree = s.agg.task.treeSha := by
  have hturn := serve_turn uuid4 s q
  obtain ⟨hne, hstate⟩ := h
  generalize (serve (uuid4 s.calls) s q).agg = agg' at hturn hne hstate
  cases hturn with
  | same heq => exact absurd (congrArg _ heq) hne
  | resets _ hno => simp [hno] at hstate
  | refuses key _ _ heq => exact absurd (congrArg TaskAggregate.state heq) hne
  | begins _ _ _ _ heq => simp [heq] at hstate
  | reports d hd hq heq =>
    subst hq
    refine ⟨d, hd, .report _ _, fun x tree hrests => ?_⟩
    cases hrests
    exact ⟨rfl, rfl⟩
  | accepts qa v d hd hq hid htree heq =>
    subst hq
    refine ⟨d, hd, .verdict qa v (.inl ⟨hid, htree⟩), fun x tree hrests => ?_⟩
    cases hrests with
    | verdict _ _ hmade =>
      obtain ⟨hx, ht⟩ := restsOn_current hs hmade
      exact ⟨hx.trans hid, ht.trans htree⟩
  | marks qa v hqa hv hq heq =>
    subst hq
    obtain ⟨v', d, hv', hd, hid, htree⟩ := hs.accepted hqa
    cases hv.symm.trans hv'
    refine ⟨d, hd, .mark qa v hv (.inl ⟨hid, htree⟩), fun x tree hrests => ?_⟩
    cases hrests with
    | mark _ v' hv' hmade =>
      cases hv.symm.trans hv'
      obtain ⟨hx, ht⟩ := restsOn_current hs hmade
      exact ⟨hx.trans hid, ht.trans htree⟩

structure Stale (uuid4 : Nat → String) (s : TaskDesk) (x : String) : Prop where
  drawn : ∃ i < s.calls, x = uuid4 i
  past : ∀ d, s.agg.activeDispatch = some d → d.dispatchId ≠ x

variable {x : String}

theorem drawn_ne (hu : Function.Injective uuid4) (hx : ∃ i < s.calls, x = uuid4 i) :
    uuid4 s.calls ≠ x := by
  rintro rfl
  obtain ⟨i, hi, heq⟩ := hx
  exact absurd (hu heq) (Nat.ne_of_gt hi)

theorem Stale.kept (hu : Function.Injective uuid4) (hx : Stale uuid4 s x)
    (h : step uuid4 s q = some t) : Stale uuid4 t x := by
  cases h
  obtain ⟨⟨i, hi, heq⟩, hover⟩ := hx
  refine ⟨⟨i, Nat.lt_succ_of_lt hi, heq⟩, ?_⟩
  have hturn := serve_turn uuid4 s q
  dsimp only
  generalize (serve (uuid4 s.calls) s q).agg = agg' at hturn ⊢
  intro d hd
  rcases hturn.dispatch hd with hd | hid
  · exact hover d hd
  · exact hid ▸ drawn_ne hu ⟨i, hi, heq⟩

theorem stale_reopened (hu : Function.Injective uuid4) (hx : ∃ i < s.calls, x = uuid4 i)
    (hq : Reopens uuid4 s q) (h : step uuid4 s q = some t) : Stale uuid4 t x := by
  cases h
  obtain ⟨i, hi, hxi⟩ := hx
  refine ⟨⟨i, Nat.lt_succ_of_lt hi, hxi⟩, ?_⟩
  have hturn := serve_turn uuid4 s q
  dsimp only
  cases hq with
  | dispatch pm key d' hd' =>
    generalize (serve (uuid4 s.calls) s _).agg = agg' at hturn ⊢
    cases hturn with
    | begins d hid _ _ heq =>
      subst heq
      intro d₁ hd₁
      cases hd₁
      exact hid ▸ drawn_ne hu ⟨i, hi, hxi⟩
    | same _ hret => simp [hret] at hd'
    | resets _ _ _ _ _ hret => simp [hret] at hd'
    | refuses _ _ _ _ hret => simp [hret] at hd'
    | reports _ _ hq => cases hq
    | accepts _ _ _ _ hq => cases hq
    | marks _ _ _ _ hq => cases hq
  | tree q htree =>
    generalize (serve (uuid4 s.calls) s q).agg = agg' at hturn htree ⊢
    have hnone := hturn.tree htree
    intro d hd
    rw [hnone] at hd
    cases hd
  | reconcile pm newTreeSha agg h =>
    have hnone : agg.activeDispatch = none := by
      simp only [TaskAggregate.reconcile, bind_ok] at h
      obtain ⟨_, -, _, -, task, -, h⟩ := h
      cases h
      rfl
    intro d hd
    simp only [serve, orKeep, h, Except.toOption, Option.getD_some, hnone] at hd
    cases hd

/-! ## Attempts and keys -/

structure Remembered (ds : List Dispatch) (agg : TaskAggregate) : Prop extends Numbered ds where
  count : agg.attempt = ds.length
  used : ∀ d ∈ ds, d.idempotencyKey ∈ agg.usedKeys

variable {ds : List Dispatch}

theorem Remembered.same (h : Remembered ds s.agg) (hattempt : agg'.attempt = s.agg.attempt)
    (hused : agg'.usedKeys = s.agg.usedKeys) : Remembered ds agg' :=
  ⟨h.toNumbered, hattempt.trans h.count, fun d hd => hused ▸ h.used d hd⟩

theorem Remembered.snoc {d : Dispatch} (h : Remembered ds s.agg)
    (hattempt : d.attempt = s.agg.attempt + 1) (hnew : d.idempotencyKey ∉ s.agg.usedKeys)
    (heq : agg' = { keyUsed s.agg d.idempotencyKey with
      activeDispatch := some d, state := .dispatched }) : Remembered (ds ++ [d]) agg' := by
  subst heq
  refine ⟨⟨?_, ?_⟩, ?_, ?_⟩
  · rw [List.map_append, List.length_append, List.length_singleton, List.range'_concat, h.attempts,
      List.map_singleton, hattempt, h.count]
    simp [Nat.add_comm]
  · rw [List.map_append, List.nodup_append]
    refine ⟨h.keys, List.nodup_singleton _, ?_⟩
    rintro k hk _ hk' rfl
    obtain ⟨d', hd', rfl⟩ := List.mem_map.mp hk
    rw [List.map_singleton, List.mem_singleton] at hk'
    exact hnew (hk' ▸ h.used d' hd')
  · simp [keyUsed, h.count]
  · intro d' hd'
    rcases List.mem_append.mp hd' with hd' | hd'
    · exact List.mem_cons_of_mem _ (h.used d' hd')
    · cases List.mem_singleton.mp hd'
      exact List.mem_cons_self

theorem Remembered.step (hid : Identity (uuid4 s.calls)) (h : Remembered ds s.agg)
    (hq : ProperKey s q) (hstep : step uuid4 s q = some t) :
    Remembered (ds ++ returned uuid4 s q) t.agg := by
  cases hstep
  have hturn := serve_turn uuid4 s q
  dsimp only
  generalize (serve (uuid4 s.calls) s q).agg = agg' at hturn ⊢
  cases hturn with
  | same heq hret => rw [hret, List.append_nil]; exact heq ▸ h
  | resets _ _ hattempt hused _ hret => rw [hret, List.append_nil]; exact h.same hattempt hused
  | refuses _ hrefuse => exact absurd ⟨hid, hq⟩ hrefuse
  | begins d _ hattempt hnew heq hret => rw [hret]; exact h.snoc hattempt hnew heq
  | reports _ _ hq' heq | accepts _ _ _ _ hq' _ _ heq | marks _ _ _ _ hq' heq =>
    subst hq' heq
    simp only [returned, List.append_nil]
    exact h.same rfl rfl

/-! ## Stale dispatches -/

/-- What moves the task on is about a dispatch that was not left behind, and about its tree. -/
def Unaffected (uuid4 : Nat → String) (s₀ : TaskDesk) (ls : List Request) (s : TaskDesk) : Prop :=
  ∀ q, Advances uuid4 s q → (∃ x tree, RestsOn s q x tree) ∧
    ∀ x tree, RestsOn s q x tree → ¬ Superseded uuid4 s₀ ls x ∧ tree = s.agg.task.treeSha

variable {task : Task} {ls : List Request}

theorem sound_of_run (h : Library.Run (step uuid4) (initial task) ls s) : Sound uuid4 s := by
  apply h.invariant (I := Sound uuid4)
  · exact ⟨nofun, nofun, nofun⟩
  · exact fun _ _ _ hs _ h => hs.kept h

theorem returned_id {d : Dispatch} (hd : d ∈ returned uuid4 s q) :
    d.dispatchId = uuid4 s.calls := by
  have hturn := serve_turn uuid4 s q
  cases hturn with
  | begins d' hid _ _ _ hret =>
    rw [hret, List.mem_singleton] at hd
    exact hd ▸ hid
  | same _ hret | resets _ _ _ _ _ hret | refuses _ _ _ _ hret =>
    rw [hret] at hd
    cases hd
  | reports _ _ hq | accepts _ _ _ _ hq | marks _ _ _ _ hq =>
    subst hq
    cases hd

theorem stale_of_superseded (hu : Function.Injective uuid4) {s₀ : TaskDesk}
    (h : Library.Run (step uuid4) s₀ ls s) (hx : Superseded uuid4 s₀ ls x) : Stale uuid4 s x := by
  obtain ⟨ls₁, s₁, q₁, t₁, ls₂, s₂, q₂, ls₃, rfl, h₁, hq₁, ⟨d, hd, rfl⟩, h₂, hre⟩ := hx
  have hdrawn₁ : ∃ i < t₁.calls, d.dispatchId = uuid4 i := by
    cases hq₁
    exact ⟨s₁.calls, Nat.lt_succ_self _, returned_id hd⟩
  have hdrawn₂ : ∃ i < s₂.calls, d.dispatchId = uuid4 i := by
    refine h₂.invariant (I := fun s => ∃ i < s.calls, d.dispatchId = uuid4 i) hdrawn₁ ?_
    rintro s q t ⟨i, hi, hid⟩ - hstep
    cases hstep
    exact ⟨i, Nat.lt_succ_of_lt hi, hid⟩
  obtain ⟨t₂, hq₂⟩ : ∃ t₂, step uuid4 s₂ q₂ = some t₂ := ⟨_, rfl⟩
  have hpre : Library.Run (step uuid4) s₀ (ls₁ ++ q₁ :: (ls₂ ++ [q₂])) t₂ :=
    h₁.trans ((Path.single trivial hq₁).trans (.tail h₂ trivial hq₂))
  obtain ⟨t, ht, hrest⟩ := Path.split (show Library.Run (step uuid4) s₀
    ((ls₁ ++ q₁ :: (ls₂ ++ [q₂])) ++ ls₃) s by simpa using h)
  cases ht.unique hpre
  exact hrest.invariant (I := fun s => Stale uuid4 s d.dispatchId)
    (stale_reopened hu hdrawn₂ hre hq₂) fun _ _ _ hx _ h => hx.kept hu h

theorem remembered_of_path {s₀ : TaskDesk} (h₀ : Remembered [] s₀.agg)
    (h : Path (step uuid4) ProperKey s₀ ls s) (hid : ∀ i < s.calls, Identity (uuid4 i)) :
    Remembered (dispatches uuid4 s₀ ls) s.agg := by
  induction h with
  | refl => exact h₀
  | @tail s t ls q hp hq hs ih =>
    have hcalls : t.calls = s.calls + 1 := by
      cases hs
      rfl
    rw [dispatches, trace_snoc _ hp]
    refine Remembered.step (hid _ (by omega)) (ih fun i hi => hid i (by omega)) hq hs

/-- Stale dispatches have no effect, and attempts are numbered without gaps if no admitted key is
refused by the record of its dispatch. -/
theorem stale_dispatches (hu : Function.Injective uuid4)
    (h : Path (step uuid4) ProperKey (initial task) ls s)
    (hid : ∀ i < s.calls, Identity (uuid4 i)) :
    Unaffected uuid4 (initial task) ls s ∧ Numbered (dispatches uuid4 (initial task) ls) := by
  constructor
  · intro q hq
    obtain ⟨d, hd, hrests, hall⟩ := advances_current (sound_of_run h.run) hq
    refine ⟨⟨_, _, hrests⟩, fun x tree hx => ?_⟩
    obtain ⟨rfl, htree⟩ := hall x tree hx
    exact ⟨fun hsup => (stale_of_superseded hu h.run hsup).past d hd rfl, htree⟩
  · have h₀ : Remembered [] (initial task).agg := ⟨⟨rfl, .nil⟩, rfl, nofun⟩
    exact (remembered_of_path h₀ h hid).toNumbered

end Turns

/-! ## A key that is refused -/

def retryCalls : List Request :=
  [.register "PM" .pm "token", .freeze (principal .pm), .dispatch (principal .pm) "first",
    .processSucceeded (sampleUuid 2) "t1", .changeTree "t2", .dispatch (principal .pm) "second",
    .processSucceeded (sampleUuid 2) "t1"]

def refusedCalls : List Request :=
  [.register "PM" .pm "token", .freeze (principal .pm), .dispatch (principal .pm) "\n",
    .dispatch (principal .pm) "first"]

instance (s : TaskDesk) (pm : Principal) (key : String) : Decidable (Admits s pm key) :=
  decidable_of_iff (s.identities.require pm .pm = .ok () ∧ s.agg.state = .frozen ∧ key ≠ "" ∧
    key ∉ s.agg.usedKeys) ⟨fun ⟨h₁, h₂, h₃, h₄⟩ => ⟨h₁, h₂, h₃, h₄⟩, fun ⟨h₁, h₂, h₃, h₄⟩ =>
      ⟨h₁, h₂, h₃, h₄⟩⟩

instance (s : TaskDesk) (q : Request) : Decidable (ProperKey s q) := by
  unfold ProperKey
  split <;> infer_instance

def plainTask : Option Task := (Task.create "A" "run" ["AC"] "t1" "policy").toOption

theorem stale_dispatches_retried : ∃ (task : Task) (s : TaskDesk),
    Path (step sampleUuid) ProperKey (initial task) retryCalls s ∧ s.agg.state = .dispatched ∧
    Unaffected sampleUuid (initial task) retryCalls s ∧
    Numbered (dispatches sampleUuid (initial task) retryCalls) := by
  have hrun : plainTask.any (fun task =>
      (exec (restrict (step sampleUuid) ProperKey) (initial task) retryCalls).any fun s =>
        s.agg.state = .dispatched ∧ s.calls = 7) = true := by decide +kernel
  obtain ⟨task, -, hs⟩ := (Option.any_eq_true _ _).mp hrun
  obtain ⟨s, hexec, hs⟩ := (Option.any_eq_true _ _).mp hs
  obtain ⟨hstate, hcalls⟩ := of_decide_eq_true hs
  have hpath := path_of_restrict (path_of_exec hexec)
  have hid : ∀ i < s.calls, Identity (sampleUuid i) := by
    rw [hcalls]
    decide +kernel
  exact ⟨task, s, hpath, hstate, stale_dispatches sampleUuid_injective hpath hid⟩

/-- The first dispatch that a task returns is its second attempt. -/
theorem attempts_skipped : ∃ (task : Task) (s : TaskDesk),
    Library.Run (step sampleUuid) (initial task) refusedCalls s ∧
    ¬ Numbered (dispatches sampleUuid (initial task) refusedCalls) := by
  have hrun : plainTask.any (fun task =>
      (exec (step sampleUuid) (initial task) refusedCalls).isSome ∧
      (dispatches sampleUuid (initial task) refusedCalls).map (·.attempt) = [2]) = true := by
    decide +kernel
  obtain ⟨task, -, hs⟩ := (Option.any_eq_true _ _).mp hrun
  obtain ⟨hexec, hattempts⟩ := of_decide_eq_true hs
  refine ⟨task, _, run_exec _ hexec, fun hnum => ?_⟩
  have hlen := congrArg List.length hattempts
  rw [List.length_map] at hlen
  have hnum := hnum.attempts
  rw [hattempts, hlen] at hnum
  exact absurd hnum (by decide)

end TaskDesk

end SubagentBridge.Team
