import SubagentBridge.Recovery.ClaimRelease

/-! What a resumption dispatches: the steps of its plan, in their order, once the approvals for
all of them are there; and it completes its item after the last one. -/

namespace SubagentBridge.Supervisor

open Library Domain TeamStore

variable {F : Type} {B : Builtins F}

/-! ## The work of an item -/

def Alike (step step' : Dict String (Json F)) : Prop :=
  ∀ key, key ≠ "approval_action_id" → step.get? key = step'.get? key

structure Copies (base item : QueueItem F) : Prop where
  taskId : item.taskId = base.taskId
  payload : ∀ key ∉ ["approval_action_id", "steps", "_unverified_completed_steps"],
    item.payload.get? key = base.payload.get? key
  step : ∀ i, Alike ((Owner.step i).dict item) ((Owner.step i).dict base)

section Work

variable {base item : QueueItem F} {i j : Nat} {key : String} {v : Json F}

theorem Copies.refl (base : QueueItem F) : Copies base base :=
  ⟨rfl, fun _ _ => rfl, fun _ _ _ => rfl⟩

theorem Copies.update (hs : Copies base item) (status : QueueTaskStatus) (updatedAt : F) :
    Copies base { item with status, updatedAt } :=
  ⟨hs.taskId, hs.payload, hs.step⟩

theorem stepsOf_set (payload : Dict String (Json F)) (hkey : key ≠ "steps") :
    stepsOf (payload.set key v) = stepsOf payload := by
  rw [stepsOf, Dict.get?_set, if_neg hkey, ← stepsOf]

theorem dict_set_payload (hkey : key ≠ "steps") :
    (Owner.step i).dict { item with payload := item.payload.set key v } =
      (Owner.step i).dict item := by
  simp only [Owner.dict, stepsOf_set _ hkey]

theorem members_setMember (key : String) (v step : Json F) :
    (setMember key v step).members = step.members.map (Dict.set · key v) := by
  cases step <;> rfl

theorem dict_set_self (hd : (Owner.step i).dict item ≠ []) :
    (Owner.step i).dict ((Owner.step i).set item key v) =
      ((Owner.step i).dict item).set key v := by
  simp only [Owner.dict, Owner.set] at hd ⊢
  rw [stepsOf, Dict.get?_set, if_pos rfl]
  simp only [List.getElem?_modify, if_true]
  cases hs : (stepsOf item.payload)[i]? with
  | none => simp [hs] at hd
  | some step =>
    cases hm : step.members with
    | none => simp [hs, hm] at hd
    | some members => simp [members_setMember, hm]

theorem alike_approve {owner : Owner} (hd : owner.dict item ≠ []) :
    Alike (owner.dict (owner.set item "approval_action_id" v)) (owner.dict item) := by
  intro key hkey
  cases owner with
  | payload => exact (Dict.get?_set ..).trans (if_neg hkey.symm)
  | step i => rw [dict_set_self hd, Dict.get?_set, if_neg hkey.symm]

theorem dict_set_other (hij : i ≠ j) :
    (Owner.step j).dict ((Owner.step i).set item key v) = (Owner.step j).dict item := by
  simp only [Owner.dict, Owner.set]
  rw [stepsOf, Dict.get?_set, if_pos rfl]
  simp [hij]

theorem Copies.approve (hc : Copies base item) {owner : Owner} (hd : owner.dict item ≠ []) :
    Copies base (owner.set item "approval_action_id" v) := by
  cases owner with
  | payload =>
    refine ⟨hc.taskId, fun key hkey => ?_, fun i => ?_⟩
    · rw [Owner.set, Dict.get?_set, if_neg (by simp at hkey; grind)]
      exact hc.payload key hkey
    · rw [Owner.set, dict_set_payload (by decide)]
      exact hc.step i
  | step i =>
    refine ⟨hc.taskId, fun key hkey => ?_, fun j => ?_⟩
    · rw [Owner.set, Dict.get?_set, if_neg (by simp at hkey; grind)]
      exact hc.payload key hkey
    · by_cases hij : i = j
      · subst hij
        rw [dict_set_self hd]
        intro key hkey
        rw [Dict.get?_set, if_neg hkey.symm]
        exact hc.step i key hkey
      · rw [dict_set_other hij]
        exact hc.step j

theorem Copies.command (hc : Copies base item) (owner : Owner) :
    (owner.dict item).get? "command" = (owner.dict base).get? "command" := by
  cases owner with
  | payload => exact hc.payload "command" (by decide)
  | step i => exact hc.step i "command" (by decide)

theorem dict_mark {owner : Owner} (howner : ∃ i, owner = .step i) (v : Json F) :
    owner.dict { item with payload := item.payload.set "_unverified_completed_steps" v } =
      owner.dict item := by
  obtain ⟨i, rfl⟩ := howner
  exact dict_set_payload (by decide)

theorem Copies.mark (hc : Copies base item) (v : Json F) :
    Copies base { item with payload := item.payload.set "_unverified_completed_steps" v } := by
  refine ⟨hc.taskId, fun key hkey => ?_, fun i => ?_⟩
  · rw [Dict.get?_set, if_neg (by simp at hkey; grind)]
    exact hc.payload key hkey
  · rw [dict_set_payload (by decide)]
    exact hc.step i

theorem fetch_approve {owner : Owner} (hd : owner.dict item ≠ []) :
    fetch (owner.dict (owner.set item "approval_action_id" v)) "approval_action_id" = v := by
  cases owner with
  | payload =>
    change fetch (item.payload.set "approval_action_id" v) _ = v
    rw [fetch, Dict.get?_set, if_pos rfl, Option.getD_some]
  | step i => rw [dict_set_self hd, fetch, Dict.get?_set, if_pos rfl, Option.getD_some]

end Work

/-! ## The plan -/

structure Sent (F : Type) where
  workerId : String
  taskId : String
  payload : Dict String (Json F)
  result : Dict String (Json F)

abbrev Sent.completed (s : Sent F) : Prop := (fetch s.result "status").text = some "COMPLETED"

def sent (h : History F) : List (Sent F) :=
  h.filterMap fun e => match e with
    | ⟨.dispatchTaskToWorker workerId taskId payload, .ok result⟩ =>
      some ⟨workerId, taskId, payload, result⟩
    | _ => none

def Approved (B : Builtins F) (R : Resumption F) (h : History F) (taskId : String)
    (owner : Dict String (Json F)) : Prop :=
  ∃ action : ApprovalAction, action.state = "APPROVED" ∧
    ((⟨.getAction (fetch owner "approval_action_id"), .ok (some action)⟩ ∈ h ∧
      ⟨.isActionForContext action R.workerId taskId (commandList B owner)
        (R.worktreePath.getD ""), .ok true⟩ ∈ h ∧
      ⟨.isActionConsumed action.actionId, .ok false⟩ ∈ h) ∨
    ⟨.requestCommandApproval R.workerId taskId (commandList B owner)
        (R.worktreePath.getD ""), .ok action⟩ ∈ h ∧
      fetch owner "approval_action_id" = .str action.actionId)

section Plan

variable [FloatText F] [FloatInt F] (B) (V : View F) (R : Resumption F) (base : QueueItem F)

def todo (steps : List (Dict String (Json F))) : List Nat :=
  let remaining := undone base steps.length (V.completed R (fetch base.payload "steps"))
  if remaining = [] then
    if V.unproven R (expectedArtifacts base) steps then List.range steps.length else []
  else remaining

def startIndex : Int := (R.latestCp.map (·.stepIndex)).getD 0

def Due (h : History F) (workerId taskId : String) (payload : Dict String (Json F)) : Prop :=
  workerId = R.workerId ∧ (∀ s ∈ sent h, s.completed) ∧ ∃ item, Copies base item ∧
  match fetch base.payload "steps" with
  | .arr steps => ∃ dicts commands i, steps.mapM Json.members = some dicts ∧
      (todo V R base dicts)[(sent h).length]? = some i ∧
      commandSteps B base [] 0 (todo V R base dicts) = .ok commands ∧
      (∀ c ∈ commands, Approved B R h c.1 (c.2.dict item)) ∧
      taskId = base.taskId ++ "-" ++ B.format
        (stepName ((Owner.step i).dict base) (startIndex R + (sent h).length + 1)) ∧
      payload = withWorkspace R ((Owner.step i).dict item)
  | _ => sent h = [] ∧ V.provenBefore R (expectedArtifacts base) = false ∧
      ((base.payload.get? "command").isSome → Approved B R h base.taskId item.payload) ∧
      taskId = base.taskId ∧ payload = withWorkspace R item.payload

/-- The work is done as planned, and the evidence could be read if nothing had to be done. -/
def Finished (h : History F) : Prop :=
  (∀ s ∈ sent h, s.completed) ∧
  match fetch base.payload "steps" with
  | .arr steps => ∃ dicts, steps.mapM Json.members = some dicts ∧
      (sent h).length = (todo V R base dicts).length ∧
      (todo V R base dicts = [] → LegibleEvidence V R (expectedArtifacts base) dicts)
  | _ => if V.provenBefore R (expectedArtifacts base)
      then sent h = [] ∧ LegibleCompletion V R (expectedArtifacts base)
      else (sent h).length = 1

def Planned (trusted : Bool) (d : String) (h : History F) : Op F → Prop
  | .dispatchTaskToWorker workerId taskId payload => ∃ base session, taken h d = some base ∧
      V.session base.toSessionId = some session ∧
      Due B V (V.resumption trusted base session) base h workerId taskId payload
  | .saveQueueItem item => item.status = .completed → ∃ base session, taken h d = some base ∧
      V.session base.toSessionId = some session ∧
      Finished V (V.resumption trusted base session) base h
  | _ => True

abbrev planned (trusted : Bool) (d : String) : Protocol (sig F) Error :=
  .ofHistory (fun (_ : Request F) h o => Planned B V trusted d h o)
    fun o r => Expected o r ∧ (Inspects o → ∀ a, r = .ok a → V.seen o = .ok a)

end Plan

/-! ## Resumptions keep to their plan -/

structure Later (h h' : History F) : Prop where
  before : h <+: h'
  sent : sent h' = sent h

theorem Later.refl (h : History F) : Later h h := ⟨List.prefix_rfl, rfl⟩

theorem Later.trans {h₁ h₂ h₃ : History F} (h : Later h₁ h₂) (h' : Later h₂ h₃) : Later h₁ h₃ :=
  ⟨h.before.trans h'.before, h'.sent.trans h.sent⟩

theorem Later.snoc {h h' : History F} (hl : Later h h') {o : Op F} {r : Except Error o.Ret}
    (ho : ∀ workerId taskId payload, o ≠ .dispatchTaskToWorker workerId taskId payload) :
    Later h (h' ++ [⟨o, r⟩]) where
  before := hl.before.trans (List.prefix_append ..)
  sent := by
    have hnone : Supervisor.sent [⟨o, r⟩] = [] := by
      rw [Supervisor.sent, List.filterMap_eq_nil_iff]
      intro e he
      obtain rfl := List.mem_singleton.mp he
      split
      next heq => exact absurd (Event.mk.inj heq).1 (ho _ _ _)
      next => rfl
    rw [← hl.sent, Supervisor.sent, List.filterMap_append, ← Supervisor.sent, ← Supervisor.sent,
      hnone, List.append_nil]

theorem Later.quiet {h h' : History F} (hl : Later h h') {o : Op F} {r : Except Error o.Ret}
    (ho : Quiet o) : Later h (h' ++ [⟨o, r⟩]) :=
  hl.snoc fun _ _ _ he => by subst he; cases ho

theorem sent_snoc (h : History F) (workerId taskId : String) (payload res : Dict String (Json F)) :
    sent (h ++ [⟨.dispatchTaskToWorker workerId taskId payload, .ok res⟩]) =
      sent h ++ [⟨workerId, taskId, payload, res⟩] := by
  simp [sent]

theorem Approved.mono {R : Resumption F} {h h' : History F} {taskId : String}
    {owner : Dict String (Json F)} (hh : h <+: h') (ha : Approved B R h taskId owner) :
    Approved B R h' taskId owner := by
  obtain ⟨action, hstate, ⟨hget, hfits, hfresh⟩ | ⟨hreq, hid⟩⟩ := ha
  · exact ⟨action, hstate, .inl ⟨hh.subset hget, hh.subset hfits, hh.subset hfresh⟩⟩
  · exact ⟨action, hstate, .inr ⟨hh.subset hreq, hid⟩⟩

theorem commandList_congr {owner owner' : Dict String (Json F)} (ha : Alike owner owner') :
    commandList B owner = commandList B owner' := by
  rw [commandList, commandList, fetch, fetch, ha "command" (by decide)]

section Walk

variable [FloatText F] [FloatInt F] {V : View F} {trusted : Bool} {d : String} {q : Request F}
variable {h h' : History F} {base item : QueueItem F} {R : Resumption F} {α β : Type}

variable (B V trusted d q h) in
abbrev Plans (p : Call F α) : Prop :=
  p.Follows (planned B V trusted d) (fun _ _ => True) (q, h)

theorem planned_quiet {o : Op F} (ho : Quiet o) : Planned B V trusted d h o := by
  cases o <;> trivial

theorem plans_perform {o : Op F} (ho : Quiet o) {f : o.Ret → Call F β}
    (hf : ∀ a, Plans B V trusted d q (h ++ [⟨o, .ok a⟩]) (f a)) :
    Plans B V trusted d q h ((perform o).bind f) :=
  (Proc.follows_op_bind ..).mpr ⟨planned_quiet ho, fun a _ => hf a, fun _ _ => trivial⟩

theorem plans_step {o : Op F} (ho : Quiet o) {f : o.Ret → Call F β}
    (hf : ∀ a h', Later h h' → Plans B V trusted d q h' (f a)) :
    Plans B V trusted d q h ((perform o).bind f) :=
  plans_perform ho fun a => hf a _ ((Later.refl h).quiet ho)

theorem plans_reads {p : Call F α} {f : α → Call F β} {P : Prop} {v : α}
    (hfinds : p.Finds V.seen P v) (hp : p.Only Inspects) (hs : p.Strict)
    (hf : ∀ h', Later h h' → P → Plans B V trusted d q h' (f v)) :
    Plans B V trusted d q h (p.bind f) := by
  apply hfinds.follows_bind (I := Later h) hp hs
  · exact fun h o ho => planned_quiet ho.quiet
  · exact fun o a ho ha => ha.2 ho a rfl
  · exact .refl h
  · exact fun h o a ho hl => hl.quiet ho.quiet
  · exact fun h hP hl => hf h hl hP
  · exact fun _ _ _ _ => trivial
  · exact fun _ _ _ _ _ => trivial

theorem plans_save {f : Unit → Call F β} (hst : item.status ≠ .completed)
    (hf : ∀ h', Later h h' → Plans B V trusted d q h' (f ())) :
    Plans B V trusted d q h ((perform (.saveQueueItem item)).bind f) :=
  (Proc.follows_op_bind ..).mpr
    ⟨fun hc => absurd hc hst, fun _ _ => hf _ ((Later.refl h).snoc (by simp)), fun _ _ => trivial⟩

/-! ### Approvals -/

def Bound (B : Builtins F) (R : Resumption F) (base item : QueueItem F) (taskId : String)
    (owner : Owner) (h' : History F) (action : ApprovalAction) (item' : QueueItem F) : Prop :=
  Copies base item' ∧
    (item' = item ∨ item' = owner.set item "approval_action_id" (.str action.actionId)) ∧
    (action.state = "APPROVED" → Approved B R h' taskId (owner.dict item'))

variable {taskId : String} {owner : Owner}

theorem plans_request (hc : Copies base item) (hd : owner.dict item ≠ []) (hl : Later h h')
    {f : ApprovalAction × QueueItem F → Call F β}
    (hf : ∀ action item' h', Later h h' → Bound B R base item taskId owner h' action item' →
      Plans B V trusted d q h' (f (action, item'))) :
    Plans B V trusted d q h' ((perform (.requestCommandApproval R.workerId taskId
      (commandList B (owner.dict item)) (R.worktreePath.getD ""))).bind fun action =>
        f (action, owner.set item "approval_action_id" (.str action.actionId))) := by
  apply plans_perform rfl
  intro action
  refine hf action _ _ (hl.quiet rfl) ⟨hc.approve hd, .inr rfl, fun hstate => ?_⟩
  refine ⟨action, hstate, .inr ⟨?_, fetch_approve hd⟩⟩
  rw [commandList_congr (alike_approve hd)]
  simp

theorem plans_actionFor (hc : Copies base item) (hd : owner.dict item ≠ [])
    {f : ApprovalAction × QueueItem F → Call F β}
    (hf : ∀ action item' h', Later h h' → Bound B R base item taskId owner h' action item' →
      Plans B V trusted d q h' (f (action, item'))) :
    Plans B V trusted d q h ((actionFor B R item taskId owner).bind f) := by
  simp only [actionFor, Proc.bind_eq, Proc.bind_assoc]
  have hnew : ∀ h', Later h h' → Plans B V trusted d q h'
      ((do
        let action ← perform (.requestCommandApproval R.workerId taskId
          (commandList B (owner.dict item)) (R.worktreePath.getD ""))
        return (action, owner.set item "approval_action_id" (.str action.actionId)) :
          Call F (ApprovalAction × QueueItem F)).bind f) := by
    intro h' hl
    have h := plans_request hc hd hl hf
    exact (Proc.bind_assoc ..).symm ▸ h
  rw [namedAction]
  split
  next =>
    apply plans_perform rfl
    rintro (_ | action)
    · exact hnew _ ((Later.refl h).quiet rfl)
    · rw [needsApproval]
      split
      · exact hnew _ ((Later.refl h).quiet rfl)
      · rw [Proc.bind_eq, Proc.bind_assoc]
        apply plans_perform rfl
        rintro (_ | _)
        · exact hnew _ (((Later.refl h).quiet rfl).quiet rfl)
        · rw [if_pos rfl]
          split
          next hstate =>
            apply plans_perform rfl
            rintro (_ | _)
            · refine hf action item _ ((((Later.refl h).quiet rfl).quiet rfl).quiet rfl)
                ⟨hc, .inl rfl, fun _ => ⟨action, hstate, .inl ?_⟩⟩
              simp
            · exact hnew _ ((((Later.refl h).quiet rfl).quiet rfl).quiet rfl)
          next hstate =>
            exact hf action item _ (((Later.refl h).quiet rfl).quiet rfl)
              ⟨hc, .inl rfl, fun hs => absurd hs hstate⟩
  next => exact hnew h (.refl h)

def Apart (owner owner' : Owner) : Prop :=
  ∀ (item : QueueItem F) (v : Json F),
    owner.dict (owner'.set item "approval_action_id" v) = owner.dict item

theorem plans_approvals {done commands : List (String × Owner)} {pending : List PendingAction}
    (hc : Copies base item)
    (hcommand : ∀ c ∈ commands, ((c.2.dict base).get? "command").isSome)
    (hapart : (done ++ commands).Pairwise fun c c' => Apart (F := F) c.2 c'.2)
    (hdone : pending = [] → ∀ c ∈ done, Approved B R h c.1 (c.2.dict item))
    {f : QueueItem F × List PendingAction × Option (Reply F) → Call F β}
    (hf : ∀ item' pending' h', Later h h' → Copies base item' →
      (pending' = [] → ∀ c ∈ done ++ commands, Approved B R h' c.1 (c.2.dict item')) →
      Plans B V trusted d q h' (f (item', pending', none)))
    (hreply : ∀ item pending reply, ∃ a, f (item, pending, some reply) = .ret a) :
    Plans B V trusted d q h ((approvals B R item pending commands).bind f) := by
  induction commands generalizing done pending item h with
  | nil => exact hf _ _ _ (.refl h) hc (by simpa using hdone)
  | cons c commands ih =>
    obtain ⟨taskId, owner⟩ := c
    have hd : owner.dict item ≠ [] := by
      intro hnil
      have hsome := hcommand (taskId, owner) List.mem_cons_self
      rw [← hc.command, hnil] at hsome
      cases hsome
    rw [approvals, Proc.bind_eq, Proc.bind_assoc]
    apply plans_actionFor hc hd
    rintro action item' h' hl ⟨hc', hitem, happ⟩
    have hkept : ∀ c ∈ done, c.2.dict item' = c.2.dict item := by
      intro c hmem
      have hap := (List.pairwise_append.mp hapart).2.2 c hmem (taskId, owner) List.mem_cons_self
      obtain rfl | rfl := hitem
      · rfl
      · exact hap item _
    have hrest : ∀ pending', (pending' = [] → ∀ c ∈ done ++ [(taskId, owner)],
        Approved B R h' c.1 (c.2.dict item')) →
        Plans B V trusted d q h' ((approvals B R item' pending' commands).bind f) := by
      intro pending' hdone'
      apply ih hc' (fun c hmem => hcommand c (List.mem_cons_of_mem _ hmem)) (by simpa using hapart)
        hdone'
      intro item'' pending'' h'' hl' hc'' happ
      exact hf item'' pending'' h'' (hl.trans hl') hc'' (by simpa using happ)
    dsimp only
    split
    next => exact hrest _ (by simp)
    split
    next hstate =>
      apply hrest
      intro hnil c hmem
      rcases List.mem_append.mp hmem with hmem | hmem
      · rw [hkept c hmem]
        exact (hdone hnil c hmem).mono hl.before
      · obtain rfl := List.mem_singleton.mp hmem
        exact happ hstate
    next =>
      simp only [Proc.bind_eq, Proc.bind_assoc]
      apply plans_perform rfl
      intro updatedAt
      apply plans_save (by simp)
      intro h' _
      obtain ⟨a, ha⟩ := hreply _ _ _
      rw [Proc.pure_eq, Proc.bind, ha]
      trivial

theorem plans_preflight {commands : List (String × Owner)} {completed : List (Json F)}
    (hc : Copies base item)
    (hcommand : ∀ c ∈ commands, ((c.2.dict base).get? "command").isSome)
    (hapart : commands.Pairwise fun c c' => Apart (F := F) c.2 c'.2)
    {f : QueueItem F × Option (Reply F) → Call F β}
    (hf : ∀ item' h', Later h h' → Copies base item' →
      (∀ c ∈ commands, Approved B R h' c.1 (c.2.dict item')) →
      Plans B V trusted d q h' (f (item', none)))
    (hreply : ∀ item reply, ∃ a, f (item, some reply) = .ret a) :
    Plans B V trusted d q h
      ((preflightCommandApprovals B R item completed commands).bind f) := by
  have hstop : ∀ (item : QueueItem F) reply h', Plans B V trusted d q h'
      ((pure (item, some reply) : Call F _).bind f) := by
    intro item reply h'
    obtain ⟨a, ha⟩ := hreply item reply
    rw [Proc.pure_eq, Proc.bind, ha]
    trivial
  rw [preflightCommandApprovals]
  split
  next hnone =>
    obtain rfl := List.isEmpty_iff.mp hnone
    exact hf item h (.refl h) hc (by simp)
  split
  · rw [Proc.bind_eq, Proc.bind_assoc]
    have hnone : ([] : List PendingAction) = [] → ∀ c ∈ ([] : List (String × Owner)),
        Approved B R h c.1 (c.2.dict item) := by simp
    have hall : List.Pairwise (fun c c' => Apart (F := F) c.2 c'.2)
        (([] : List (String × Owner)) ++ commands) := hapart
    apply plans_approvals hc hcommand hall hnone
    · intro item' pending h' hl hc' happ
      simp only [Proc.bind_eq, Proc.bind_assoc]
      apply plans_perform rfl
      intro updatedAt
      cases pending with
      | nil =>
        simp only [Proc.bind_assoc]
        apply plans_save (by simp)
        intro h'' hl'
        have hstep := ((Later.refl h').quiet rfl).trans hl'
        exact hf _ _ (hl.trans hstep) (hc'.update _ _) fun c hmem =>
          (happ rfl c hmem).mono hstep.before
      | cons first others =>
        simp only [Proc.bind_assoc]
        exact plans_save (by simp) fun h' _ => hstop _ _ h'
    · exact fun item pending reply => hreply item reply
  · rw [Proc.bind_eq, Proc.bind_assoc]
    exact plans_save (by simp) fun h' _ => hstop _ _ h'

/-! ### Workflows -/

/-- The call has claimed the item, and goes by the checkpoint and the worktree in `R`. -/
structure Begun (V : View F) (trusted : Bool) (d : String) (base : QueueItem F)
    (R : Resumption F) (h : History F) : Prop where
  taken : taken h d = some base
  session : ∃ session current, V.session base.toSessionId = some session ∧
    R = { V.resumption trusted base session with session := current }

omit [FloatText F] [FloatInt F] in
theorem Begun.later (hb : Begun V trusted d base R h) (hh : h <+: h') :
    Begun V trusted d base R h' :=
  ⟨taken_mono hh hb.taken, hb.session⟩

theorem Begun.due (hb : Begun V trusted d base R h) {workerId taskId : String}
    {payload : Dict String (Json F)} (hdue : Due B V R base h workerId taskId payload) :
    Planned B V trusted d h (.dispatchTaskToWorker workerId taskId payload) := by
  obtain ⟨session, current, hs, rfl⟩ := hb.session
  exact ⟨base, session, hb.taken, hs, hdue⟩

theorem Begun.finished (hb : Begun V trusted d base R h) (hfin : Finished V R base h) :
    Planned B V trusted d h (.saveQueueItem item) := by
  obtain ⟨session, current, hs, rfl⟩ := hb.session
  exact fun _ => ⟨base, session, hb.taken, hs, hfin⟩

/-- The item is a workflow, and the commands of its plan are bound to these owners. -/
structure Workflow (B : Builtins F) (V : View F) (R : Resumption F) (base : QueueItem F)
    (dicts : List (Dict String (Json F))) (commands : List (String × Owner)) : Prop where
  steps : ∃ steps, fetch base.payload "steps" = .arr steps ∧ steps.mapM Json.members = some dicts
  commands : commandSteps B base [] 0 (todo V R base dicts) = .ok commands
  legible : todo V R base dicts = [] → LegibleEvidence V R (expectedArtifacts base) dicts

theorem nodup_todo (V : View F) (R : Resumption F) (base : QueueItem F)
    (dicts : List (Dict String (Json F))) : (todo V R base dicts).Nodup := by
  rw [todo]
  split
  · split
    · exact List.nodup_range
    · exact List.nodup_nil
  · exact List.nodup_range.filter _

theorem Workflow.isStep {dicts : List (Dict String (Json F))} {commands : List (String × Owner)}
    (hw : Workflow B V R base dicts commands) {c : String × Owner} (hc : c ∈ commands) :
    ∃ i, c.2 = .step i := by
  have hmem := (commandSteps_owners hw.commands).1.subset (List.mem_map_of_mem hc)
  obtain ⟨i, -, hi⟩ := List.mem_map.mp hmem
  exact ⟨i, hi.symm⟩

theorem Workflow.apart {dicts : List (Dict String (Json F))} {commands : List (String × Owner)}
    (hw : Workflow B V R base dicts commands) :
    commands.Pairwise fun c c' => Apart (F := F) c.2 c'.2 := by
  have hnodup : ((todo V R base dicts).map Owner.step).Pairwise (Apart (F := F)) := by
    rw [List.pairwise_map]
    exact (nodup_todo V R base dicts).imp fun hij item v => dict_set_other fun h => hij h.symm
  exact List.pairwise_map.mp (hnodup.sublist (commandSteps_owners hw.commands).1)

omit [FloatText F] [FloatInt F] in
theorem Copies.name (hc : Copies base item) (i : Nat) (n : Int) :
    stepName ((Owner.step i).dict item) n = stepName ((Owner.step i).dict base) n := by
  rw [stepName, stepName, hc.step i "name" (by decide)]

variable {dicts : List (Dict String (Json F))} {commands : List (String × Owner)}

theorem plans_executeSteps (hb : Begun V trusted d base R h)
    (hw : Workflow B V R base dicts commands)
    (hc : Copies base item) (happ : ∀ c ∈ commands, Approved B R h c.1 (c.2.dict item))
    (hst : item.status ≠ .completed) {done remaining : List Nat}
    (htodo : todo V R base dicts = done ++ remaining) (hsent : (sent h).length = done.length)
    (hdone : ∀ s ∈ sent h, s.completed) {skipped completed : List (Json F)} {tokens : Int} :
    Plans B V trusted d q h (executeSteps B R skipped remaining item
      (startIndex R + done.length) tokens completed) := by
  obtain ⟨steps, hsteps, hdicts⟩ := hw.steps
  induction remaining generalizing done item h completed tokens with
  | nil =>
    apply plans_perform rfl
    intro updatedAt
    have hl := (Later.refl h).quiet (o := .now) (r := .ok updatedAt) rfl
    refine (Proc.follows_op_bind ..).mpr ⟨?_, fun _ _ => trivial, fun _ _ => trivial⟩
    refine (hb.later hl.before).finished (B := B) ?_
    rw [Finished, hl.sent, hsteps]
    exact ⟨hdone, dicts, hdicts, by simp [hsent, htodo], hw.legible⟩
  | cons i remaining ih =>
    refine (Proc.follows_op_bind ..).mpr ⟨?_, fun res _ => ?_, fun _ _ => trivial⟩
    · apply hb.due
      refine ⟨rfl, hdone, item, hc, ?_⟩
      rw [hsteps]
      refine ⟨dicts, commands, i, hdicts, by simp [hsent, htodo], hw.commands, happ, ?_, rfl⟩
      rw [hc.taskId, hc.name, hsent]
    · split
      next hres =>
        apply plans_save (by exact hst)
        intro h' hl
        split
        next => trivial
        next =>
          apply plans_step rfl
          intro createdAt h₂ hl₂
          apply plans_step rfl
          intro _ h₃ hl₃
          have hl := (hl.trans hl₂).trans hl₃
          have hh := (List.prefix_append h _).trans hl.before
          have hnow : sent h₃ = sent h ++ [_] := hl.sent.trans (sent_snoc h _ _ _ res)
          have hnext : startIndex R + ↑done.length + 1 = startIndex R + ↑(done ++ [i]).length := by
            simp [Int.add_assoc]
          rw [hnext]
          apply ih (hb.later hh) ((hc.mark _))
          · intro c hmem
            rw [dict_mark (hw.isStep hmem)]
            exact (happ c hmem).mono hh
          · exact hst
          · simp [htodo]
          · simp [hnow, hsent]
          · intro s hmem
            rw [hnow] at hmem
            rcases List.mem_append.mp hmem with hmem | hmem
            · exact hdone s hmem
            · obtain rfl := List.mem_singleton.mp hmem
              exact hres
      next hres =>
        apply plans_perform rfl
        intro updatedAt
        exact plans_save (by simp) fun _ _ => trivial

theorem plans_executeWorkflow (hb : Begun V trusted d base R h) (hsent : sent h = [])
    (hdicts : ∃ steps, fetch base.payload "steps" = .arr steps ∧
      steps.mapM Json.members = some dicts)
    (hlegible : todo V R base dicts = [] → LegibleEvidence V R (expectedArtifacts base) dicts)
    {count : Nat} {completed : List (Json F)} :
    Plans B V trusted d q h
      (executeWorkflow B R base count (todo V R base dicts) completed) := by
  rw [executeWorkflow]
  split
  · exact plans_save (by simp) fun _ _ => trivial
  · cases hcommands : commandSteps B base [] 0 (todo V R base dicts) with
    | error e => trivial
    | ok commands =>
      have hw : Workflow B V R base dicts commands := ⟨hdicts, hcommands, hlegible⟩
      refine plans_preflight (.refl base) (commandSteps_owners hcommands).2 hw.apart ?_
        fun _ reply => ⟨reply, rfl⟩
      intro item h' hl hc happ
      apply plans_step rfl
      intro updatedAt h₂ hl₂
      apply plans_save (by simp)
      intro h₃ hl₃
      have hlater := hl₂.trans hl₃
      have hnow : sent h₃ = [] := ((hl.trans hlater).sent).trans hsent
      have hstart : (R.latestCp.map (·.stepIndex)).getD 0 =
          startIndex R + ([] : List Nat).length := by simp [startIndex]
      rw [hstart]
      have hall : todo V R base dicts = [] ++ todo V R base dicts := rfl
      exact plans_executeSteps (hb.later (hl.trans hlater).before) hw (hc.update .running updatedAt)
        (fun c hmem => (happ c hmem).mono hlater.before) (by simp) hall (by simp [hnow])
        (by simp [hnow])

theorem plans_finish (hb : Begun V trusted d base R h) (hfin : Finished V R base h)
    {f : Unit → Call F β} {a : β} (hf : f () = .ret a) :
    Plans B V trusted d q h ((perform (.saveQueueItem item)).bind f) :=
  (Proc.follows_op_bind ..).mpr ⟨hb.finished (B := B) hfin, fun _ _ => hf ▸ trivial,
    fun _ _ => trivial⟩

theorem plans_resumeSteps (hb : Begun V trusted d base R h) (hsent : sent h = [])
    {steps : List (Json F)}
    (hsteps : fetch base.payload "steps" = .arr steps)
    (hdicts : steps.mapM Json.members = some dicts) :
    Plans B V trusted d q h
      (resumeSteps B R base dicts (V.completed R (fetch base.payload "steps"))) := by
  have hwork : todo V R base dicts =
      let remaining := undone base dicts.length (V.completed R (fetch base.payload "steps"))
      if remaining = [] then
        if V.unproven R (expectedArtifacts base) dicts then List.range dicts.length else []
      else remaining := rfl
  rw [resumeSteps]
  apply plans_reads (finds_uncheckpointed R _) (uncheckpointed_inspects R _)
    (strict_uncheckpointed R _)
  intro h' hl _
  have hb := hb.later hl.before
  have hsent := hl.sent.trans hsent
  simp only [Proc.bind_eq, List.isEmpty_iff]
  split
  next hnone =>
    apply plans_reads (finds_missingEvidence R _ dicts) (missingEvidence_inspects R _ _)
      (strict_missingEvidence R _ _)
    intro h'' hl' hlegible
    have hb := hb.later hl'.before
    have hsent := hl'.sent.trans hsent
    rw [undone, if_pos hnone] at hwork
    split
    next hmissing =>
      rw [expectedArtifacts, if_pos hmissing] at hwork
      rw [← hwork]
      exact plans_executeWorkflow hb hsent ⟨steps, hsteps, hdicts⟩ fun _ => hlegible
    next hmissing =>
      rw [expectedArtifacts, if_neg hmissing] at hwork
      apply plans_step rfl
      intro updatedAt h₃ hl₃
      refine plans_finish (hb.later hl₃.before) ?_ rfl
      rw [Finished, hl₃.sent, hsent, hsteps]
      exact ⟨by simp, dicts, hdicts, by rw [hwork]; rfl, fun _ => hlegible⟩
  next hsome =>
    rw [undone, if_neg hsome] at hwork
    have hsome : todo V R base dicts ≠ [] := by
      rw [hwork]
      exact hsome
    rw [← hwork]
    exact plans_executeWorkflow hb hsent ⟨steps, hsteps, hdicts⟩ fun hnone => absurd hnone hsome

/-! ### A single instruction -/

structure Single (B : Builtins F) (V : View F) (R : Resumption F) (base : QueueItem F) :
    Prop where
  steps : ∀ steps, fetch base.payload "steps" ≠ .arr steps
  open_ : V.provenBefore R (expectedArtifacts base) = false

theorem plans_executeInstruction (hb : Begun V trusted d base R h) (hsent : sent h = [])
    (hone : Single B V R base) (hc : Copies base item)
    (happ : (base.payload.get? "command").isSome → Approved B R h base.taskId item.payload) :
    Plans B V trusted d q h (executeInstruction R item) := by
  apply plans_step rfl
  intro updatedAt h₁ hl₁
  apply plans_save (by simp)
  intro h₂ hl₂
  have hl := hl₁.trans hl₂
  have hb := hb.later hl.before
  refine (Proc.follows_op_bind ..).mpr ⟨?_, fun res _ => ?_, fun _ _ => trivial⟩
  · apply hb.due
    refine ⟨rfl, by simp [hl.sent, hsent], item, hc, ?_⟩
    split
    next steps hsteps => exact absurd hsteps (hone.steps steps)
    next =>
      exact ⟨hl.sent.trans hsent, hone.open_, fun hsome => (happ hsome).mono hl.before,
        hc.taskId, rfl⟩
  · apply plans_step rfl
    intro finishedAt h₃ hl₃
    have hnow : sent h₃ = [⟨R.workerId, item.taskId, withWorkspace R item.payload, res⟩] := by
      rw [hl₃.sent, sent_snoc, hl.sent, hsent, List.nil_append]
    refine (Proc.follows_op_bind ..).mpr ⟨fun hst => ?_, fun _ _ => trivial, fun _ _ => trivial⟩
    have hres : (fetch res "status").text = some "COMPLETED" := by
      by_contra hres
      rw [if_neg hres] at hst
      cases hst
    have hfin : Finished V R base h₃ := by
      refine ⟨by simpa [hnow] using hres, ?_⟩
      split
      next steps hsteps => exact absurd hsteps (hone.steps steps)
      next =>
        rw [if_neg (by simp [hone.open_]), hnow]
        rfl
    have hb := hb.later ((List.prefix_append h₂ _).trans hl₃.before)
    exact hb.finished (B := B) hfin hst

theorem plans_resumeInstruction (hb : Begun V trusted d base R h) (hsent : sent h = [])
    (hsteps : ∀ steps, fetch base.payload "steps" ≠ .arr steps) {completed : List (Json F)} :
    Plans B V trusted d q h (resumeInstruction B R base completed) := by
  apply plans_reads (finds_completedBefore R _) (completedBefore_inspects R _)
    (strict_completedBefore R _)
  intro h' hl hlegible
  have hb := hb.later hl.before
  have hsent := hl.sent.trans hsent
  split
  next hdone =>
    apply plans_step rfl
    intro updatedAt h₂ hl₂
    refine plans_finish (hb.later hl₂.before) ?_ rfl
    rw [Finished, hl₂.sent, hsent]
    refine ⟨by simp, ?_⟩
    split
    next steps hs => exact absurd hs (hsteps steps)
    next =>
      rw [expectedArtifacts, if_pos hdone]
      exact ⟨rfl, hlegible⟩
  next hopen =>
    have hone : Single B V R base := ⟨hsteps, Bool.not_eq_true _ ▸ hopen⟩
    split
    next hcommand =>
      refine plans_preflight (.refl base) ?_ (List.pairwise_singleton _ _) ?_
        fun _ reply => ⟨reply, rfl⟩
      · intro c hmem
        rw [List.mem_singleton.mp hmem]
        exact hcommand
      intro item h₂ hl₂ hc happ
      exact plans_executeInstruction (hb.later hl₂.before) (hl₂.sent.trans hsent) hone hc
        fun _ => happ _ (List.mem_singleton.mpr rfl)
    next hcommand =>
      exact plans_executeInstruction hb hsent hone (.refl base) fun hsome => absurd hsome hcommand

theorem plans_resumeClaimed {session session' : AgentSession F}
    (ht : taken h d = some base) (hs : V.session base.toSessionId = some session)
    (hsw : SameWorker V base.toSessionId session session') (hsent : sent h = []) :
    Plans B V trusted d q h (resumeClaimed B trusted base session') := by
  apply plans_reads (finds_worktreeOf _ session') (worktreeOf_inspects ..) (strict_worktreeOf ..)
  intro h₁ hl₁ _
  apply plans_reads (finds_commitOf _) (commitOf_inspects _) (strict_commitOf _)
  intro h₂ hl₂ _
  apply plans_reads (finds_perform rfl) (inspects_perform _ rfl) (strict_perform _)
  intro h₃ hl₃ _
  change Plans B V trusted d q h₃ ((completedSteps (V.resumption trusted base session') _).bind _)
  apply plans_reads (finds_completedSteps _ _) (completedSteps_inspects _ _)
    (strict_completedSteps _ _)
  intro h₄ hl₄ _
  have hl := ((hl₁.trans hl₂).trans hl₃).trans hl₄
  have hb : Begun V trusted d base (V.resumption trusted base session') h₄ :=
    ⟨taken_mono hl.before ht, session, session', hs, hsw.resumption trusted⟩
  have hsent := hl.sent.trans hsent
  split
  next steps hsteps =>
    split
    next => trivial
    next dicts hdicts =>
      exact plans_resumeSteps hb hsent hsteps hdicts
  next hsteps => exact plans_resumeInstruction hb hsent hsteps

/-! ### Attaching the worker -/

variable {workerId : String}

theorem plans_session {f : AgentSession F → Call F β}
    (hf : ∀ session h', Later h h' → V.session workerId = some session →
      Plans B V trusted d q h' (f session)) :
    Plans B V trusted d q h ((sessionOf B workerId).bind f) := by
  rw [sessionOf, Proc.bind_eq, Proc.bind_assoc]
  apply plans_reads (finds_perform rfl) (inspects_perform _ rfl) (strict_perform _)
  intro h' hl _
  cases hs : V.session workerId with
  | none => trivial
  | some session => exact hf session h' hl hs

theorem plans_spawn {f : AgentSession F → Call F β}
    (hf : ∀ session session' h', Later h h' → V.session workerId = some session →
      SameWorker V workerId session session' → Plans B V trusted d q h' (f session')) :
    Plans B V trusted d q h ((resumeWorkerFromCheckpoint B workerId true).bind f) := by
  rw [resumeWorkerFromCheckpoint, Proc.bind_eq, Proc.bind_assoc]
  apply plans_reads (finds_perform rfl) (inspects_perform _ rfl) (strict_perform _)
  intro h₁ hl₁ _
  cases hs : V.session workerId with
  | none => trivial
  | some session =>
    simp only [Proc.bind_eq, Proc.bind_assoc, if_true]
    apply plans_reads (finds_perform rfl) (inspects_perform _ rfl) (strict_perform _)
    intro h₂ hl₂ _
    apply plans_reads (finds_perform rfl) (inspects_perform _ rfl) (strict_perform _)
    intro h₃ hl₃ _
    apply plans_reads (finds_worktreeDir _) (worktreeDir_inspects _) (strict_worktreeDir _)
    intro h₄ hl₄ _
    apply plans_step rfl
    intro record h₅ hl₅
    apply plans_step rfl
    intro updatedAt h₆ hl₆
    apply plans_step rfl
    intro _ h₇ hl₇
    have hl := (((hl₁.trans hl₂).trans hl₃).trans hl₄).trans ((hl₅.trans hl₆).trans hl₇)
    exact hf session _ h₇ hl hs ⟨rfl, worktree_assigned rfl⟩

theorem plans_attach {f : Option (AgentSession F) → Call F β}
    (hf : ∀ session session' h', Later h h' → V.session workerId = some session →
      SameWorker V workerId session session' → Plans B V trusted d q h' (f (some session')))
    (hrefused : ∀ h', Later h h' → Plans B V trusted d q h' (f none)) :
    Plans B V trusted d q h ((attachWorker B workerId).bind f) := by
  have hsession : ∀ h', Later h h' → Plans B V trusted d q h'
      ((sessionOf B workerId).bind fun session => f (some session)) := fun h' hl =>
    plans_session fun session h'' hl' hs => hf session session h'' (hl.trans hl') hs ⟨rfl, rfl⟩
  rw [attachWorker, Proc.bind_eq, Proc.bind_assoc]
  apply plans_step rfl
  intro dispatchable h₁ hl₁
  split
  · exact (Proc.bind_assoc ..).symm ▸ hsession h₁ hl₁
  · rw [Proc.bind_eq, Proc.bind_assoc]
    apply plans_step rfl
    intro attached h₂ hl₂
    split
    · rw [Proc.bind_eq, Proc.bind_assoc]
      apply plans_step rfl
      intro safe h₃ hl₃
      have hl := (hl₁.trans hl₂).trans hl₃
      split
      · exact (Proc.bind_assoc ..).symm ▸ hsession h₃ hl
      · exact hrefused h₃ hl
    · rw [Proc.bind_eq, Proc.bind_assoc]
      exact plans_spawn fun session session' h₃ hl₃ =>
        hf session session' h₃ ((hl₁.trans hl₂).trans hl₃)

/-! ## The whole call -/

theorem plans_isOrphan {f : Bool → Call F β} (preItem : Option (QueueItem F))
    (hf : ∀ orphan h', h <+: h' → Fresh d q h' → sent h' = sent h →
      Plans B V trusted d q h' (f orphan)) (hfresh : Fresh d q h) :
    Plans B V trusted d q h ((isOrphan preItem).bind f) := by
  cases preItem with
  | none => exact hf false h List.prefix_rfl hfresh rfl
  | some item =>
    rw [isOrphan, Proc.bind_eq, Proc.bind_assoc]
    apply plans_perform rfl
    intro alive
    have hl := (Later.refl h).quiet (o := .isWorkerAlive item.toSessionId) (r := .ok alive) rfl
    split
    · rw [Proc.bind_eq, Proc.bind_assoc]
      apply plans_perform rfl
      intro attached
      have hl' := hl.quiet (o := .hasAttachedWorkerIpc item.toSessionId) (r := .ok attached) rfl
      exact hf _ _ hl'.before ((hfresh.quiet rfl).quiet rfl) hl'.sent
    · exact hf _ _ hl.before (hfresh.quiet rfl) hl.sent

theorem resume_planned (d : String) (trusted : Bool) :
    (resumeTaskFromCheckpoint B d trusted).Follows (planned B V trusted d)
      (fun _ _ => True) (.resumeTask d trusted, []) := by
  refine (Proc.follows_op_bind ..).mpr ⟨trivial, fun preItem _ => ?_, fun _ _ => trivial⟩
  refine plans_isOrphan preItem (fun orphan h _ hfresh hsent => ?_) (by simp [Fresh])
  split
  · trivial
  refine (Proc.follows_op_bind ..).mpr ⟨trivial, ?_, fun _ _ => trivial⟩
  intro (item : QueueItem F) hans
  obtain ⟨rfl, -⟩ := hans.1
  have htaken : taken (h ++ [⟨.markTaskResuming item.dispatchId, .ok item⟩]) item.dispatchId =
      some item := hfresh.taken_claim
  apply plans_attach
  · intro session session' h' hl hs hsw
    apply plans_resumeClaimed (taken_mono hl.before htaken) hs hsw
    rw [hl.sent]
    simpa [sent] using hsent
  · intro h' _
    apply plans_step rfl
    intro updatedAt h'' _
    exact plans_save (by simp) fun _ _ => trivial

end Walk

end SubagentBridge.Supervisor
