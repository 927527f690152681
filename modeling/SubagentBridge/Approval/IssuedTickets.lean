import SubagentBridge.Approval.ProvenTickets
import SubagentBridge.Approval.TrustedAuthority
import SubagentBridge.Library.Traces

/-! The tickets that the authorities of a deployment issue under one secret, and the tickets
that a worker accepts under it. -/

namespace SubagentBridge.VerifiedOperatorAuthority

open Library OperatorBoundary

/-! ## The names of actions -/

def Named (actionId : String) : Prop := ∃ t : List Char, actionId = "act_" ++ .ofList t ∧ ':' ∉ t

def Names {τ : Type} (o : Op τ) : Prop := ∀ req, o = .insertRow req → Named req.actionId

section Names

variable {τ : Type} [LinearOrder τ] {self : Nat} {now : τ}
  {req expected : OperatorApprovalRequest τ}
variable {actionId : String}

omit [LinearOrder τ] in
theorem names_bind {o : Op τ} {α : Type} {f : o.Ret → Call τ α} (ho : ∀ req, o ≠ .insertRow req)
    (hf : ∀ a, (f a).Only Names) : ((perform o).bind f).Only Names :=
  Proc.only_op_bind (S := sig τ) (fun req he => absurd he (ho req)) hf

omit [LinearOrder τ] in
theorem names_perform {o : Op τ} (ho : ∀ req, o ≠ .insertRow req) : (perform o).Only Names :=
  (Proc.only_op (S := sig τ) o).mpr fun req he => absurd he (ho req)

theorem names_rehydrateFromDisk : (rehydrateFromDisk self : Call τ Nat).Only Names := by
  rw [rehydrateFromDisk]
  apply names_bind (by simp)
  intro now
  apply names_bind (by simp)
  intro rows
  refine Proc.Only.bind (Proc.only_forEach (fun r => ?_) rows) fun _ => trivial
  rw [rehydrateRow]
  apply (Proc.only_ofExcept _).bind
  intro req
  apply names_bind (by simp)
  intro _
  split
  next => exact names_perform (by simp)
  next => trivial

theorem names_expireIfDue : (expireIfDue self req now).Only Names := by
  rw [expireIfDue]
  split
  next => trivial
  next =>
    apply Proc.Only.bind
    · apply Proc.Only.tryCatch
      · exact (swapRequest_only fun _ he => by cases he).bind fun _ => trivial
      · intro e
        cases e <;> trivial
    · intro persisted
      split
      next =>
        apply names_bind (by simp)
        exact fun _ => trivial
      next =>
        apply names_rehydrateFromDisk.bind
        intro _
        apply names_bind (by simp)
        exact fun _ => trivial

theorem names_getRequest : (getRequest self actionId : Call τ _).Only Names := by
  rw [OperatorBoundary.getRequest]
  apply names_bind (by simp)
  intro found
  cases found with
  | none => trivial
  | some req =>
    apply names_bind (by simp)
    intro now
    exact names_expireIfDue.bind fun _ => trivial

theorem names_listPending : (listPending self : Call τ _).Only Names := by
  rw [listPending]
  apply names_bind (by simp)
  intro now
  apply names_bind (by simp)
  intro reqs
  induction reqs with
  | nil => trivial
  | cons req reqs ih => exact names_expireIfDue.bind fun _ => ih.bind fun _ => trivial

variable [NatCast τ] {E : Env τ}

theorem names_appendEvent {key kind : String}
    {payload : List (Option String × AuditLedger.Value τ)} :
    (appendEvent E self key kind payload).Only Names := by
  rw [appendEvent]
  split
  next => trivial
  next => exact names_perform (by simp)

theorem names_canonicalCommandDigest {command : List String} {path taskId : String} :
    (canonicalCommandDigest E command path taskId).Only Names := by
  apply names_bind (by simp)
  exact fun _ => trivial

omit [LinearOrder τ] [NatCast τ] in
theorem names_demand {verdict : Call τ Bool} {failed refused : String}
    (hv : verdict.Only Names) : (demand verdict failed refused).Only Names := by
  refine Proc.Only.bind ?_ fun _ => Proc.only_require ..
  exact hv.tryCatch fun _ => trivial

theorem names_resolveByOperator {decision : OperatorDecision} {operator : OperatorIdentity}
    {notes : String} {answers : Dict String String} :
    (resolveByOperator E self actionId decision operator notes answers).Only Names := by
  rw [resolveByOperator]
  apply (Proc.only_require ..).bind
  intro _
  apply (names_demand (names_perform (by simp))).bind
  intro _
  apply (Proc.only_require ..).bind
  intro _
  apply names_bind (by simp)
  intro now
  apply names_bind (by simp)
  intro found
  split
  next => trivial
  next req =>
    split
    next => exact names_expireIfDue.bind fun _ => trivial
    next =>
      split
      next => trivial
      next =>
        apply names_bind (by simp)
        intro used
        apply (Proc.only_require ..).bind
        intro _
        rw [resolveRequest]
        apply Proc.Only.bind
        · rw [demandProof]
          split
          next => exact names_demand (names_perform (by simp))
          next => trivial
        · intro _
          apply names_appendEvent.bind
          intro _
          apply (swapRequest_only fun _ he => by cases he).bind
          intro _
          apply names_bind (by simp)
          exact fun _ => trivial

variable [Add τ] (hhex : ∀ s, ':' ∉ (E.sha256 s).toList)
include hhex

theorem names_createRequest {sessionId taskId workspacePath : String}
    {command questions : List String}
    {ttlSeconds : Option τ} :
    (createRequest E self sessionId taskId command workspacePath questions ttlSeconds).Only
      Names := by
  rw [createRequest]
  dsimp only
  split
  next => trivial
  next =>
    split
    next => trivial
    next =>
      apply names_bind (by simp)
      intro now
      apply names_bind (by simp)
      intro nonce
      apply names_canonicalCommandDigest.bind
      intro digest
      apply names_bind (by simp)
      intro path
      apply names_bind (by simp)
      intro _
      apply Proc.Only.bind
      · apply Proc.Only.tryCatch
        · apply (Proc.only_op (S := sig τ) _).mpr
          intro req he
          cases he
          exact ⟨_, rfl, fun hc => hhex _ (List.mem_of_mem_take hc)⟩
        · intro e
          cases e <;> trivial
      · intro _
        exact names_appendEvent.bind fun _ => trivial

omit hhex in
theorem names_consumeForExecution {sessionId taskId workspacePath : String}
    {command : List String} {ttl : τ} :
    (consumeForExecution E self actionId sessionId taskId command workspacePath ttl).Only
      Names := by
  rw [consumeForExecution]
  split
  next => trivial
  next =>
    apply names_bind (by simp)
    intro now
    apply names_bind (by simp)
    intro found
    split
    next => trivial
    next req =>
      split
      next => exact names_expireIfDue.bind fun _ => trivial
      repeat' split
      all_goals first | trivial | skip
      rw [consumeApproved]
      apply names_bind (by simp)
      intro used
      repeat' split
      all_goals first | trivial | skip
      apply names_canonicalCommandDigest.bind
      intro expected
      apply names_canonicalCommandDigest.bind
      intro actual
      split
      next => trivial
      next =>
        apply Proc.Only.bind
        · rw [OperatorBoundary.consumeRow]
          apply Proc.Only.tryCatch
          · apply names_bind (by simp)
            exact fun _ => trivial
          · exact fun _ => trivial
        · intro n
          split
          next => trivial
          next =>
            split
            next => trivial
            next =>
              rw [issueTicket]
              apply names_bind (by simp)
              intro _
              apply names_bind (by simp)
              intro _
              exact names_appendEvent.bind fun _ => trivial

theorem names_boundary (q : OperatorBoundary.Request τ) :
    (OperatorBoundary.body E q).Only Names := by
  cases q with
  | createRequest => exact (names_createRequest hhex).bind fun _ => trivial
  | resolveByOperator => exact names_resolveByOperator.bind fun _ => trivial
  | consumeForExecution => exact names_consumeForExecution.bind fun _ => trivial
  | rehydrateFromDisk => exact names_rehydrateFromDisk.bind fun _ => trivial
  | getRequest => exact names_getRequest.bind fun _ => trivial
  | listPending => exact names_listPending.bind fun _ => trivial

theorem names_body (q : Request E) : (body E q).Only Names := by
  cases q with
  | boundary q => exact (names_boundary hhex q).bind fun _ => trivial
  | requestCommandApproval => exact (names_createRequest hhex).bind fun _ => trivial
  | approveByHuman => trivial
  | getAction =>
    refine Proc.Only.bind ?_ fun _ => trivial
    rw [getAction]
    split
    next => trivial
    next => exact names_getRequest
  | isActionForContext authority action workerId taskId command workspacePath =>
    exact (isActionForContext_only (fun _ _ he => by cases he) ..).bind fun _ => trivial
  | isActionConsumed =>
    refine Proc.Only.bind ?_ fun _ => trivial
    exact names_getRequest.bind fun _ => trivial
  | verifyAndConsume => trivial
  | issueExecutionTicket =>
    refine Proc.Only.bind ?_ fun _ => trivial
    rw [issueExecutionTicket]
    split
    next => trivial
    next =>
      split
      next => trivial
      next =>
        apply names_consumeForExecution.bind
        rintro ⟨allowed, reason, receipt⟩
        dsimp only
        split
        next => trivial
        next =>
          apply names_bind (by simp)
          exact fun _ => trivial

/-! ### Runs -/

def AllNamed (rows : List (Row τ)) : Prop := ∀ r ∈ rows, Named r.actionId

variable [FloatText τ] {table : LegacyTable τ} {ls : List (machine E).Label} {c : Calls E}

omit [Add τ] hhex in
theorem allNamed_exec {o : Op τ} {w : World τ} {s : State τ} (ho : Names o)
    (hs : AllNamed s.rows) : AllNamed (exec E o w s).2.rows := by
  have hmap {f : Row τ → Row τ} (hf : ∀ r, (f r).actionId = r.actionId) :
      AllNamed (s.rows.map f) := by
    intro r hr
    obtain ⟨r', hr', rfl⟩ := List.mem_map.mp hr
    rw [hf]
    exact hs r' hr'
  rw [OperatorBoundary.exec]
  split
  next => exact hs
  next =>
    cases o with
    | insertRow req =>
      rw [succeed, State.insertRow]
      split
      next => exact hs
      next =>
        intro r hr
        rcases List.mem_append.mp hr with hr | hr
        · exact hs r hr
        · rw [List.mem_singleton.mp hr]
          exact ho req rfl
    | updateRow req expected =>
      apply hmap
      intro r
      split
      next => rfl
      next => rfl
    | consumeRow actionId nonce bound now =>
      apply hmap
      intro r
      split
      next => rfl
      next => rfl
    | _ => exact hs

theorem allNamed_run (ht : AllNamed table.rows)
    (hrun : Library.Run (Step E) (start E table) ls c) : AllNamed c.state.rows := by
  induction hrun with
  | refl => exact ht
  | @tail c c' ls l hp _ hstep ih =>
    cases l with
    | start q =>
      rw [Machine.step_start hstep]
      exact ih
    | act i w =>
      obtain ⟨q, o, k, h, hact⟩ := Machine.step_act hstep
      rw [hact.result]
      exact allNamed_exec (hact.only (names_body hhex) hp) ih

omit hhex in
theorem mint_row (hrun : Library.Run (Step E) (start E table) ls c)
    {call : (machine E).Activity} {i : Nat} (hc : c.calls[i]? = some call)
    {authority : VerifiedOperatorApprovalAuthority E}
    {a workerId taskId workspacePath sessionSecret : String} {command : List String} {ttl : τ}
    (hq : call.request = .issueExecutionTicket authority a workerId taskId command workspacePath
      sessionSecret ttl) (hcons : Consumed call.hist) :
    ∃ ls₁ c₁ r, Library.Run (Step E) (start E table) ls₁ c₁ ∧ c₁.state.row a = some r := by
  obtain ⟨a', n, bound, now, hcons⟩ := hcons
  obtain ⟨h, h', hh⟩ := List.append_of_mem hcons
  obtain ⟨ls₁, w, c₁, c₂, hper⟩ := Machine.performs_of_hist hrun hc hh
  obtain ⟨k, hact⟩ := hper.acts
  obtain ⟨births, ht⟩ := traced_run hper.before
  have hmem := List.mem_of_getElem? (records_call hact.call)
  obtain ⟨ha, -⟩ := acts_disciplined hper.before hact
  rw [hq] at ha
  obtain ⟨_, _, _, _, _, _, _, req, ⟨⟩, hv, rfl, rfl⟩ := ha
  obtain rfl : req.actionId = a := (ht.memory.calls _ hmem).got _ _ _ hv.snapshot
  obtain ⟨r, hrow, -⟩ := consumed_row ht.keys hper.answer
  exact ⟨ls₁, c₁, r, hper.before, hrow⟩

theorem answered_named (ht : AllNamed table.rows)
    (hrun : Library.Run (Step E) (start E table) ls c) {call : (machine E).Activity} {i : Nat}
    (hc : c.calls[i]? = some call) {authority : VerifiedOperatorApprovalAuthority E}
    {a workerId taskId workspacePath sessionSecret reason : String} {command : List String}
    {ttl : τ} {granted : Bool} {ticket : ExecutionTicket τ}
    (hq : call.request = .issueExecutionTicket authority a workerId taskId command workspacePath
      sessionSecret ttl)
    (hr : call.proc.result = some (.ok (.answer (granted, reason, some ticket)))) :
    Named a ∧ ∃ now, ticket = executionTicket E a workerId taskId
      (computeActionResource E command workspacePath taskId) sessionSecret (now + ttl) := by
  have hmint := minted_call hrun hc hr
  rw [hq] at hmint
  obtain ⟨hcons, now, -, hticket⟩ := hmint
  obtain ⟨ls₁, c₁, r, hrun₁, hrow⟩ := mint_row hrun hc hq hcons
  obtain ⟨hr, rfl⟩ := row_some hrow
  exact ⟨allNamed_run hhex ht hrun₁ r hr, now, hticket⟩

def Lifetime (ttl : τ) : Prop := (0 : Nat) < ttl ∧ ttl ≤ (60 : Nat)

def Lives : Request E → Except Error (Response τ) → Prop
  | .issueExecutionTicket _ _ _ _ _ _ _ ttl, .ok (.answer (_, _, some _)) => Lifetime ttl
  | _, _ => True

omit hhex [FloatText τ] in
theorem body_lives (q : Request E) : (body E q).Ends (Lives q) := by
  cases q with
  | issueExecutionTicket authority a workerId taskId command path secret ttl =>
    have hends : (issueExecutionTicket authority a workerId taskId command path secret ttl).Ends
        fun r => ∀ granted reason ticket, r = .ok (granted, reason, some ticket) →
          Lifetime ttl := by
      rw [issueExecutionTicket]
      split
      next => exact fun _ _ _ h => by cases h
      next hlife => exact (Proc.ends_trivial _).mono fun _ _ _ _ _ _ => not_not.mp hlife
    apply hends.bind
    · rintro ⟨granted, reason, ticket⟩ h
      cases ticket with
      | none => trivial
      | some ticket => exact h granted reason ticket rfl
    · exact fun _ _ => trivial
  | boundary | requestCommandApproval | approveByHuman | getAction | isActionForContext
  | isActionConsumed | verifyAndConsume => exact (Proc.ends_trivial _).mono fun _ _ => trivial

omit hhex in
theorem answered_lives (hrun : Library.Run (Step E) (start E table) ls c)
    {call : (machine E).Activity} (hc : call ∈ c.calls) {r : Except Error (Response τ)}
    (hr : call.proc.result = some r) : Lives call.request r :=
  Machine.finished (P := .ofHistory (fun (_ : Unit) _ _ => True) fun _ _ => True)
    (Q := fun q _ r => Lives q r) (fun q => (body_lives q).follows (m := ((), [])))
    (fun _ _ _ _ _ _ => trivial) hrun hc hr

end Names

end SubagentBridge.VerifiedOperatorAuthority

namespace SubagentBridge.TrustedAuthority

open Library OperatorBoundary VerifiedOperatorAuthority

section Calls

variable {τ : Type} [LinearOrder τ] [NatCast τ] [Add τ]

/-- The calls on an authority and on its broker, with the clock and the random token. -/
inductive Request (τ : Type)
  | createAction (sessionId operation resource token : String) (now : τ)
  | resolveByHuman (actionId : String) (approved : Bool) (authToken reason : String) (now : τ)
  | requestCommandApproval (workerId taskId : String) (command : List String)
      (workspacePath token : String) (now : τ)
  | approveByHuman (actionId authToken reason : String) (now : τ)
  | getAction (actionId : String) (now : τ)
  | verifyAndConsume (actionId workerId taskId : String) (command : List String)
      (workspacePath : String) (now : τ)
  | issueExecutionTicket (actionId workerId taskId : String) (command : List String)
      (workspacePath sessionSecret : String) (ttlSeconds now later : τ)

def serve (E : Env τ) (a : TrustedApprovalAuthority τ) :
    Request τ → TrustedApprovalAuthority τ
  | .createAction sessionId operation resource token now =>
    { a with broker := (a.broker.createAction E sessionId operation resource token now).2 }
  | .resolveByHuman actionId approved authToken reason now =>
    { a with broker := (a.broker.resolveByHuman E actionId approved authToken reason now).2 }
  | .requestCommandApproval workerId taskId command workspacePath token now =>
    (requestCommandApproval E a workerId taskId command workspacePath token now).2
  | .approveByHuman actionId authToken reason now =>
    (approveByHuman E a actionId authToken reason now).2
  | .getAction actionId now => (getAction a actionId now).2
  | .verifyAndConsume actionId workerId taskId command workspacePath now =>
    (verifyAndConsume E a actionId workerId taskId command workspacePath now).2
  | .issueExecutionTicket actionId workerId taskId command workspacePath sessionSecret ttlSeconds
      now later =>
    (issueExecutionTicket E a actionId workerId taskId command workspacePath sessionSecret
      ttlSeconds now later).2

def Ordered (b : ApprovalBroker τ) : Prop :=
  ∀ k action, b.actions.get? k = some action → action.actionId = k ∧ Named k

variable {E : Env τ} {a : TrustedApprovalAuthority τ} {b : ApprovalBroker τ}

omit [Add τ] in
theorem Ordered.set (hb : Ordered b) {k : String} {action : ApprovalAction τ}
    {fingerprints : List String} (hid : action.actionId = k) (hk : Named k) :
    Ordered { b with actions := b.actions.set k action, consumedFingerprints := fingerprints } := by
  intro k' action' hget
  rw [Dict.get?_set] at hget
  split at hget
  next heq =>
    cases hget
    exact heq ▸ ⟨hid, hk⟩
  next => exact hb k' action' hget

omit [Add τ] in
theorem Ordered.expire (hb : Ordered b) {k : String} {action : ApprovalAction τ}
    (hget : b.actions.get? k = some action) (now : τ) :
    Ordered (b.expireIfNeeded action now).2 ∧
      (b.expireIfNeeded action now).1.actionId = k := by
  obtain ⟨hid, hk⟩ := hb k action hget
  rw [ApprovalBroker.expireIfNeeded]
  split
  next =>
    subst hid
    exact ⟨hb.set rfl hk, rfl⟩
  next => exact ⟨hb, hid⟩

theorem Ordered.create (hhex : ∀ s, ':' ∉ (E.sha256 s).toList) (hb : Ordered b)
    {sessionId operation resource token : String} {now : τ} :
    Ordered (b.createAction E sessionId operation resource token now).2 := by
  rw [ApprovalBroker.createAction]
  split
  next => exact hb
  next => exact hb.set rfl ⟨_, rfl, fun hc => hhex _ (List.mem_of_mem_take hc)⟩

omit [Add τ] in
theorem Ordered.resolve (hb : Ordered b) {actionId authToken reason : String} {approved : Bool}
    {now : τ} : Ordered (b.resolveByHuman E actionId approved authToken reason now).2 := by
  rw [ApprovalBroker.resolveByHuman]
  split
  next => exact hb
  next =>
    split
    next => exact hb
    next action hget =>
      have hexpired := hb.expire hget now
      dsimp only
      split
      next => exact hexpired.1
      next =>
        split
        next => exact hexpired.1
        next => exact hexpired.1.set hexpired.2 (hb actionId action hget).2

omit [Add τ] in
theorem Ordered.get (hb : Ordered b) (actionId : String) (now : τ) :
    Ordered (b.getAction actionId now).2 := by
  rw [ApprovalBroker.getAction]
  split
  next => exact hb
  next action hget => exact (hb.expire hget now).1

omit [Add τ] in
theorem Ordered.verify (ha : Ordered a.broker) (actionId workerId taskId : String)
    (command : List String) (workspacePath : String) (now : τ) :
    Ordered (verifyAndConsume E a actionId workerId taskId command workspacePath now).2.broker := by
  have hget := ha.get actionId now
  rw [verifyAndConsume]
  split
  next => exact ha
  next =>
    split
    next => exact ha
    next =>
      dsimp only
      repeat' split
      all_goals exact hget

theorem ordered_serve (hhex : ∀ s, ':' ∉ (E.sha256 s).toList) (ha : Ordered a.broker)
    (q : Request τ) : Ordered (serve E a q).broker := by
  cases q with
  | createAction | requestCommandApproval => exact ha.create hhex
  | resolveByHuman | approveByHuman => exact ha.resolve
  | getAction =>
    rw [serve, getAction]
    split
    next => exact ha
    next => exact ha.get _ _
  | verifyAndConsume => exact ha.verify _ _ _ _ _ _
  | issueExecutionTicket actionId workerId taskId command path secret ttl now later =>
    have hverify := ha.verify (E := E) actionId workerId taskId command path now
    rw [serve, issueExecutionTicket]
    split
    next => exact ha
    next =>
      dsimp only
      split
      next => exact hverify
      next => exact hverify

theorem ordered_run (hhex : ∀ s, ':' ∉ (E.sha256 s).toList) (ha : Ordered a.broker)
    (qs : List (Request τ)) : Ordered (qs.foldl (serve E) a).broker := by
  induction qs generalizing a with
  | nil => exact ha
  | cons q qs ih => exact ih (ordered_serve hhex ha q)

omit [Add τ] in
theorem named_of_verified (ha : Ordered a.broker)
    {actionId workerId taskId workspacePath : String} {command : List String} {now : τ}
    (hv : (verifyAndConsume E a actionId workerId taskId command workspacePath now).1.1 = true) :
    Named actionId := by
  rw [verifyAndConsume] at hv
  split at hv
  next => cases hv
  split at hv
  next => cases hv
  cases hget : a.broker.actions.get? actionId with
  | none =>
    rw [ApprovalBroker.getAction, hget] at hv
    cases hv
  | some action => exact (ha actionId action hget).2

theorem issued_named (ha : Ordered a.broker)
    {actionId workerId taskId workspacePath sessionSecret reason : String} {command : List String}
    {ttl now later : τ} {granted : Bool} {ticket : ExecutionTicket τ}
    (hissue : (issueExecutionTicket E a actionId workerId taskId command workspacePath
      sessionSecret ttl now later).1 = (granted, reason, some ticket)) :
    Named actionId ∧ Lifetime ttl ∧ ticket = executionTicket E actionId workerId taskId
      (computeActionResource E command workspacePath taskId) sessionSecret (later + ttl) := by
  rw [issueExecutionTicket] at hissue
  split at hissue
  next => cases hissue
  next hlife =>
    dsimp only at hissue
    split at hissue
    next => cases hissue
    next hvalid =>
      cases hissue
      exact ⟨named_of_verified ha (by simpa using hvalid), not_not.mp hlife, rfl⟩

end Calls

/-! ## A deployment -/

section Deployment

variable {F : Type} [FloatArith F]

structure Issuance (F : Type) where
  actionId : String
  workerId : String
  taskId : String
  command : List String
  workspacePath : String
  ttlSeconds : F
  issuedAt : F

namespace Issuance

variable (E : Env F) (secret : String) (x : Issuance F)

def expiry : F := x.issuedAt + x.ttlSeconds

def resource : String := computeActionResource E x.command x.workspacePath x.taskId

def ticket : ExecutionTicket F :=
  executionTicket E x.actionId x.workerId x.taskId (x.resource E) secret x.expiry

end Issuance

/-- Authorities over brokers with the calls that were made on them, and a run of authorities over
operator boundaries. -/
structure Deployment (E : Env F) where
  brokers : List (TrustedApprovalAuthority F × List (Request F))
  fresh : ∀ p ∈ brokers, p.1.broker.actions = []
  table : LegacyTable F
  named : AllNamed table.rows
  labels : List (VerifiedOperatorAuthority.machine E).Label
  config : VerifiedOperatorAuthority.Calls E
  run : Library.Run (VerifiedOperatorAuthority.Step E) (VerifiedOperatorAuthority.start E table)
    labels config

variable {E : Env F} (D : Deployment E) (secret : String)

inductive Deployment.Issued (x : Issuance F) : Prop
  | trusted (a : TrustedApprovalAuthority F) (qs qs' : List (Request F)) (now : F)
      (granted : Bool) (reason : String) :
      (a, qs ++ .issueExecutionTicket x.actionId x.workerId x.taskId x.command x.workspacePath
        secret x.ttlSeconds now x.issuedAt :: qs') ∈ D.brokers →
      (issueExecutionTicket E (qs.foldl (serve E) a) x.actionId x.workerId x.taskId x.command
        x.workspacePath secret x.ttlSeconds now x.issuedAt).1 =
          (granted, reason, some (x.ticket E secret)) →
      Issued x
  | verified (call : (VerifiedOperatorAuthority.machine E).Activity)
      (authority : VerifiedOperatorApprovalAuthority E) (granted : Bool) (reason : String) :
      call ∈ D.config.calls →
      call.request = .issueExecutionTicket authority x.actionId x.workerId x.taskId x.command
        x.workspacePath secret x.ttlSeconds →
      call.proc.result = some (.ok (.answer (granted, reason, some (x.ticket E secret)))) →
      Issued x

variable {D secret}

theorem Deployment.Issued.named (hhex : ∀ s, ':' ∉ (E.sha256 s).toList) {x : Issuance F}
    (hx : D.Issued secret x) : Named x.actionId ∧ Lifetime x.ttlSeconds := by
  cases hx with
  | trusted a qs qs' now granted reason hmem hissue =>
    have hfresh : Ordered a.broker := by
      intro k action hget
      rw [D.fresh _ hmem] at hget
      cases hget
    obtain ⟨hnamed, hlife, -⟩ := issued_named (ordered_run hhex hfresh qs) hissue
    exact ⟨hnamed, hlife⟩
  | verified call authority granted reason hmem hq hr =>
    obtain ⟨i, hc⟩ := List.getElem?_of_mem hmem
    have hlives := answered_lives D.run hmem hr
    rw [hq] at hlives
    exact ⟨(answered_named hhex D.named D.run hc hq hr).1, hlives⟩

theorem Deployment.issued_of_answered
    {call : (VerifiedOperatorAuthority.machine E).Activity}
    {authority : VerifiedOperatorApprovalAuthority E} {granted : Bool}
    {actionId workerId taskId workspacePath reason : String} {command : List String} {ttl : F}
    {ticket : ExecutionTicket F} (hmem : call ∈ D.config.calls)
    (hq : call.request = .issueExecutionTicket authority actionId workerId taskId command
      workspacePath secret ttl)
    (hr : call.proc.result = some (.ok (.answer (granted, reason, some ticket)))) :
    ∃ now, D.Issued secret ⟨actionId, workerId, taskId, command, workspacePath, ttl, now⟩ := by
  obtain ⟨i, hc⟩ := List.getElem?_of_mem hmem
  have hmint := minted_call D.run hc hr
  rw [hq] at hmint
  obtain ⟨-, now, -, rfl⟩ := hmint
  exact ⟨now, .verified call authority granted reason hmem hq hr⟩

/-! ## Issuing and verifying -/

variable (D secret) (B : Builtins F)

def checkedText (E : Env F) (ticket : Dict String (Json F)) (expiry : Int ⊕ F) : String :=
  B.format ((ticket.get? "action_id").getD (.str "")) ++ ":" ++
    B.format ((ticket.get? "worker_id").getD (.str "")) ++ ":" ++
    B.format ((ticket.get? "task_id").getD (.str "")) ++ ":" ++
    B.format ((ticket.get? "resource").getD (.str "")) ++ ":" ++ fixedText E expiry

/-- Nobody else signs under the secret: the signature of the ticket, if it is one of the text that
is checked, is there because a ticket with this text was issued. -/
def Unforged (ticket : Dict String (Json F)) : Prop :=
  ∀ expiry signature, ((ticket.get? "expiry").getD (.int 0)).exactNumber = some expiry →
    ((ticket.get? "signature").getD (.str "")).text = some signature →
    signature = E.hmac secret (checkedText B E ticket expiry) →
    ∃ x, D.Issued secret x ∧ checkedText B E ticket expiry =
      ticketPayload E x.actionId x.workerId x.taskId (x.resource E) x.expiry

def Complete : Prop :=
  ∀ x, D.Issued secret x → ∀ now, x.issuedAt ≤ now → now < x.expiry →
    (verifyTicketBinding E B now (.obj (ticketMembers (x.ticket E secret))) secret x.workerId
      (.str x.taskId) x.command (.str x.workspacePath)).1 = true

/-- An expiry that is the one of the ticket to the millisecond lets it pass at `now`. -/
structure Timely (E : Env F) (x : Issuance F) (now : F) (expiry : Int ⊕ F) : Prop where
  same : fixedText E expiry = E.fixed3 x.expiry
  alive : atMost expiry now = false
  soon : atMost expiry (now + (60 : Nat)) = true

structure Matches (ticket : Dict String (Json F)) (x : Issuance F) (worker task : String)
    (command : List String) (workspace : String) (now : F) : Prop where
  context : x.workerId = worker ∧ x.taskId = task ∧ x.command = command ∧
    x.workspacePath = workspace
  actionId : (ticket.get? "action_id").getD (.str "") = .str x.actionId
  worker : (ticket.get? "worker_id").getD (.str "") = .str x.workerId
  task : (ticket.get? "task_id").getD (.str "") = .str x.taskId
  resource : (ticket.get? "resource").getD (.str "") = .str (x.resource E)
  expiry : ∃ expiry, ((ticket.get? "expiry").getD (.int 0)).exactNumber = some expiry ∧
    Timely E x now expiry

def SoundFor (worker task : String) (command : List String) (workspace : String) : Prop :=
  ∀ now ticket, Unforged D secret B ticket →
    (verifyTicketBinding E B now (.obj ticket) secret worker (.str task) command
      (.str workspace)).1 = true →
    ∃ x, D.Issued secret x ∧ Matches (E := E) ticket x worker task command workspace now

/-- A ticket was issued, for the same command, workspace and task, to a worker whose id ends in a
colon and the id of this worker. -/
def Confusable (worker task : String) (command : List String) (workspace : String) : Prop :=
  ∃ x u, D.Issued secret x ∧ x.workerId = u ++ ":" ++ worker ∧ x.taskId = task ∧
    x.command = command ∧ x.workspacePath = workspace ∧ ∃ expiry now, Timely E x now expiry

variable {D secret B}

omit [FloatArith F] in
theorem text_some {v : Json F} {s : String} (h : v.text = some s) : v = .str s := by
  cases v with
  | str t => exact congrArg Json.str (Option.some.inj h)
  | null | bool _ | int _ | float _ | arr _ | obj _ => cases h

theorem complete (hhex : ∀ s, ':' ∉ (E.sha256 s).toList)
    (hmac : ∀ key text, (E.hmac key text).length = 64 ∧ isAscii (E.hmac key text) = true)
    (hadd : ∀ a b c d : F, a ≤ b → c ≤ d → a + c ≤ b + d) : Complete D secret B := by
  intro x hx now hissued halive
  obtain ⟨⟨t, hname, -⟩, hlife⟩ := hx.named hhex
  refine (verifyMembers_iff E B).mpr ⟨.inr x.expiry, (x.ticket E secret).signature, ?_⟩
  constructor
  · simp [ticketMembers, Dict.get?_cons, Issuance.ticket, executionTicket, Json.truthy, hname]
  · rfl
  · simp [ticketMembers, Dict.get?_cons, Issuance.ticket, executionTicket, Json.pyEq]
  · rfl
  · rfl
  · exact hmac _ _
  · exact decide_eq_false (not_le.mpr halive)
  · exact decide_eq_true (hadd _ _ _ _ hissued hlife.2)
  · rw [resourceText_str]
    rfl
  · rfl

omit [FloatArith F] in
theorem fixedText_no_colon [FloatArith F] {E : Env F} (hfixed : ∀ x, ':' ∉ (E.fixed3 x).toList)
    (expiry : Int ⊕ F) : ':' ∉ (fixedText E expiry).toList := by
  cases expiry with
  | inl n =>
    rw [fixedText]
    cases FloatArith.ofInt (F := F) n with
    | none => simp
    | some x => exact hfixed x
  | inr x => exact hfixed x

variable {worker task workspace : String} {command : List String}

/-- The text that was signed determines its resource and its expiry, and what stands before the
task. -/
theorem payload_cut (hhex : ∀ s, ':' ∉ (E.sha256 s).toList)
    (hfixed : ∀ x, ':' ∉ (E.fixed3 x).toList) {p r text text' : String} {expiry : Int ⊕ F}
    {x : Issuance F} (hr : r = E.sha256 text) (hx : x.resource E = E.sha256 text')
    (h : p ++ ":" ++ worker ++ ":" ++ task ++ ":" ++ r ++ ":" ++ fixedText E expiry =
      ticketPayload E x.actionId x.workerId x.taskId (x.resource E) x.expiry) :
    p ++ ":" ++ worker ++ ":" ++ task = x.actionId ++ ":" ++ x.workerId ++ ":" ++ x.taskId ∧
      r = x.resource E ∧ fixedText E expiry = E.fixed3 x.expiry := by
  obtain ⟨hhead, hexpiry⟩ := cut_last_colon (fixedText_no_colon hfixed expiry) (hfixed x.expiry) h
  obtain ⟨hhead, hresource⟩ := cut_last_colon (hr ▸ hhex text) (hx ▸ hhex text') hhead
  exact ⟨hhead, hresource, hexpiry⟩

theorem append_left_cancel {s s' t : String} (h : s ++ t = s' ++ t) : s = s' := by
  apply String.toList_injective
  simpa using congrArg String.toList h

theorem sound_of_clear (hhex : ∀ s, ':' ∉ (E.sha256 s).toList)
    (hfixed : ∀ x, ':' ∉ (E.fixed3 x).toList)
    (hstr : ∀ v : Json F, v.text = none → ∀ t, B.str v ≠ "act_" ++ t)
    (hfree : ∀ x, D.Issued secret x →
      x.resource E = computeActionResource E command workspace task →
      commandText x.command x.workspacePath x.taskId = commandText command workspace task)
    (hclear : ¬ Confusable D secret worker task command workspace) :
    SoundFor D secret B worker task command workspace := by
  intro now ticket hunforged hverify
  obtain ⟨expiry, signature, hv⟩ := (verifyMembers_iff E B).mp hverify
  have hresource := text_some hv.resource
  have hworker := text_some hv.worker
  have htask := Json.eq_str_of_pyEq hv.task
  rw [resourceText_str] at hresource
  obtain ⟨x, hx, htext⟩ := hunforged expiry signature hv.reads hv.carries hv.signed
  rw [checkedText, hresource, hworker, htask] at htext
  obtain ⟨hhead, hr, hexpiry⟩ := payload_cut hhex hfixed rfl rfl htext
  obtain ⟨hcommand, hworkspace, htask'⟩ := commandText_injective (hfree x hx hr.symm)
  rw [htask'] at hhead
  obtain ⟨⟨t, hname, hcolon⟩, -⟩ := hx.named hhex
  have hnocolon : ':' ∉ x.actionId.toList := by
    rw [hname]
    simpa using hcolon
  have hfront : B.format ((ticket.get? "action_id").getD (.str "")) ++ ":" ++ worker =
      x.actionId ++ ":" ++ x.workerId := by
    apply append_left_cancel (t := ":" ++ task)
    simpa [String.append_assoc, Builtins.format] using hhead
  rcases cut_cases hnocolon hfront with ⟨haction, hsame⟩ | ⟨u, hu⟩
  · refine ⟨x, hx, ⟨⟨hsame.symm, htask', hcommand, hworkspace⟩, ?_, ?_, ?_, ?_, ?_⟩⟩
    · cases hv' : (ticket.get? "action_id").getD (.str "") with
      | str a =>
        rw [hv'] at haction
        exact congrArg Json.str haction
      | null | bool _ | int _ | float _ | arr _ | obj _ =>
        rw [hv', hname] at haction
        exact absurd haction (hstr _ rfl _)
    · rw [hworker, hsame]
    · rw [htask, htask']
    · rw [hresource, hr]
    · exact ⟨expiry, hv.reads, hexpiry, hv.alive, hv.soon⟩
  · exact absurd ⟨x, u, hx, hu, htask', hcommand, hworkspace, expiry, now, hexpiry, hv.alive,
      hv.soon⟩ hclear

def ofExact : Int ⊕ F → Json F
  | .inl n => .int n
  | .inr x => .float x

omit [FloatArith F] in
theorem exactNumber_ofExact (expiry : Int ⊕ F) : (ofExact expiry).exactNumber = some expiry := by
  cases expiry <;> rfl

/-- The ticket of `x`, with the front of the worker's id moved to the action's. -/
def shifted (E : Env F) (secret : String) (x : Issuance F) (u worker : String)
    (expiry : Int ⊕ F) : Dict String (Json F) :=
  [("action_id", .str (x.actionId ++ ":" ++ u)), ("worker_id", .str worker),
    ("task_id", .str x.taskId), ("resource", .str (x.resource E)), ("expiry", ofExact expiry),
    ("signature", .str (x.ticket E secret).signature)]

theorem checkedText_shifted {x : Issuance F} {u : String} {expiry : Int ⊕ F} {now : F}
    (hw : x.workerId = u ++ ":" ++ worker) (hl : Timely E x now expiry) :
    checkedText B E (shifted E secret x u worker expiry) expiry =
      ticketPayload E x.actionId x.workerId x.taskId (x.resource E) x.expiry := by
  have htext : checkedText B E (shifted E secret x u worker expiry) expiry =
      x.actionId ++ ":" ++ u ++ ":" ++ worker ++ ":" ++ x.taskId ++ ":" ++ x.resource E ++ ":" ++
        fixedText E expiry := by
    simp [checkedText, shifted, Dict.get?_cons, Builtins.format]
  rw [htext, ticketPayload, hl.same, hw]
  simp only [String.append_assoc]

theorem confused (hhex : ∀ s, ':' ∉ (E.sha256 s).toList)
    (hmac : ∀ key text, (E.hmac key text).length = 64 ∧ isAscii (E.hmac key text) = true)
    (hconf : Confusable D secret worker task command workspace) :
    ¬ SoundFor D secret B worker task command workspace := by
  obtain ⟨x, u, hx, hw, rfl, rfl, rfl, expiry, now, hl⟩ := hconf
  intro hsound
  have htext : checkedText B E (shifted E secret x u worker expiry) expiry =
      ticketPayload E x.actionId x.workerId x.taskId (x.resource E) x.expiry :=
    checkedText_shifted hw hl
  obtain ⟨⟨t, hname, -⟩, -⟩ := hx.named hhex
  have hverify : (verifyMembers E B now (shifted E secret x u worker expiry) secret worker
      (.str x.taskId) x.command (.str x.workspacePath)).1 = true := by
    refine (verifyMembers_iff E B).mpr ⟨expiry, (x.ticket E secret).signature, ?_⟩
    constructor
    · simp [shifted, Dict.get?_cons, Json.truthy, hname]
    · rfl
    · simp [shifted, Dict.get?_cons, Json.pyEq]
    · exact exactNumber_ofExact expiry
    · rfl
    · exact hmac _ _
    · exact hl.alive
    · exact hl.soon
    · rw [resourceText_str]
      rfl
    · change _ = E.hmac secret (checkedText B E (shifted E secret x u worker expiry) expiry)
      rw [htext]
      rfl
  obtain ⟨y, hy, hmatches⟩ := hsound now _ (fun expiry' _ he _ _ => by
    cases (exactNumber_ofExact expiry).symm.trans he
    exact ⟨x, hx, htext⟩) hverify
  obtain ⟨⟨t', hname', hcolon⟩, -⟩ := hy.named hhex
  have haction : x.actionId ++ ":" ++ u = y.actionId := by
    have := hmatches.actionId
    simpa [shifted, Dict.get?_cons] using this
  have hmem : ':' ∈ y.actionId.toList := by
    rw [← haction]
    simp
  rw [hname'] at hmem
  apply hcolon
  simpa using hmem

/-- Issuing and verifying agree for a context exactly if no ticket can be confused with one for
it. -/
theorem agree_iff (hhex : ∀ s, ':' ∉ (E.sha256 s).toList)
    (hfixed : ∀ x, ':' ∉ (E.fixed3 x).toList)
    (hmac : ∀ key text, (E.hmac key text).length = 64 ∧ isAscii (E.hmac key text) = true)
    (hstr : ∀ v : Json F, v.text = none → ∀ t, B.str v ≠ "act_" ++ t)
    (hadd : ∀ a b c d : F, a ≤ b → c ≤ d → a + c ≤ b + d)
    (hfree : ∀ x, D.Issued secret x →
      x.resource E = computeActionResource E command workspace task →
      commandText x.command x.workspacePath x.taskId = commandText command workspace task) :
    Complete D secret B ∧ SoundFor D secret B worker task command workspace ↔
      ¬ Confusable D secret worker task command workspace := by
  constructor
  · exact fun h hconf => confused hhex hmac hconf h.2
  · exact fun hclear => ⟨complete hhex hmac hadd, sound_of_clear hhex hfixed hstr hfree hclear⟩

end Deployment

/-! ## A worker whose id has a colon in it -/

section Sample

def colonEnv : Env Int where
  conf _ := ⟨600, by decide, false, false, none, ""⟩
  sha256 s :=
    if s = "\x7b\"command\": [\"true\"], \"task_id\": \"t\", \"workspace_path\": \"/w\"\x7d" then
      "16bd9cdb56bbc7be22a7437ebc8c7f2771c34796df8200e7ac0becb7a5a11554"
    else if s = "y:z:execute_command:" ++
        "16bd9cdb56bbc7be22a7437ebc8c7f2771c34796df8200e7ac0becb7a5a11554:n" then
      "b7c531b941be6e844becfd7cc75da7ee0103be34028d496c2f68234b0831858d"
    else "3cb9933c26beb9ba425f289cd90eeaf00060a624318a859f50479db4b8cb3451"
  hmac _ _ := "edc4505edf8a424ecaf68d093642f0406dca78c0aeb9a5c247f9eed5aaea2011"
  repr s := "'" ++ s ++ "'"
  fixed3 n := .ofList (printInt n) ++ ".000"

def colonBuiltins : Builtins Int :=
  ⟨colonEnv.repr, fun _ => "", fun _ => .error (.type, "")⟩

theorem colon_hex (s : String) : ':' ∉ (colonEnv.sha256 s).toList := by
  simp only [colonEnv]
  split
  next => decide
  next =>
    split
    next => decide
    next => decide

theorem colon_fixed (n : Int) : ':' ∉ (colonEnv.fixed3 n).toList := by
  intro hc
  simp only [colonEnv, String.toList_append, String.toList_ofList, List.mem_append] at hc
  rcases hc with hc | hc
  · exact absurd (numeric_printInt n ':' hc) (by decide)
  · exact absurd hc (by decide)

def colonAuthority : TrustedApprovalAuthority Int := ⟨⟨300, by decide, "human", [], []⟩, []⟩

def colonIssuance : Issuance Int :=
  ⟨"act_b7c531b941be6e84", "y:z", "t", ["true"], "/w", 60, 0⟩

def colonCalls : List (Request Int) :=
  [.requestCommandApproval "y:z" "t" ["true"] "/w" "n" 0,
    .approveByHuman "act_b7c531b941be6e84" "human" "yes" 0]

def colonIssue : Request Int :=
  .issueExecutionTicket "act_b7c531b941be6e84" "y:z" "t" ["true"] "/w" "s" 60 0 0

def colonDeployment : Deployment colonEnv where
  brokers := [(colonAuthority, colonCalls ++ [colonIssue])]
  fresh := by simp [colonAuthority]
  table := VerifiedOperatorAuthority.emptyTable
  named := by simp [AllNamed, VerifiedOperatorAuthority.emptyTable]
  labels := []
  config := VerifiedOperatorAuthority.start colonEnv VerifiedOperatorAuthority.emptyTable
  run := .refl

theorem colon_issued : colonDeployment.Issued "s" colonIssuance := by
  apply Deployment.Issued.trusted colonAuthority colonCalls [] 0 true "APPROVED"
  · exact List.mem_singleton_self _
  · decide +kernel

theorem colon_only {x : Issuance Int} (hx : colonDeployment.Issued "s" x) :
    x.taskId = "t" ∧ x.command = ["true"] ∧ x.workspacePath = "/w" := by
  cases hx with
  | trusted a qs qs' now granted reason hmem hissue =>
    have hcalls : qs ++ .issueExecutionTicket x.actionId x.workerId x.taskId x.command
        x.workspacePath "s" x.ttlSeconds now x.issuedAt :: qs' = colonCalls ++ [colonIssue] :=
      congrArg Prod.snd (List.mem_singleton.mp hmem)
    have hin : Request.issueExecutionTicket x.actionId x.workerId x.taskId x.command
        x.workspacePath "s" x.ttlSeconds now x.issuedAt ∈ colonCalls ++ [colonIssue] := by
      rw [← hcalls]
      simp
    simp only [colonCalls, colonIssue, List.cons_append, List.nil_append, List.mem_cons,
      Request.issueExecutionTicket.injEq, reduceCtorEq, List.not_mem_nil, or_false, false_or] at hin
    exact ⟨hin.2.2.1, hin.2.2.2.1, hin.2.2.2.2.1⟩
  | verified call authority granted reason hmem => cases hmem

theorem colon_free (x : Issuance Int) (hx : colonDeployment.Issued "s" x)
    (_ : x.resource colonEnv = computeActionResource colonEnv ["true"] "/w" "t") :
    commandText x.command x.workspacePath x.taskId = commandText ["true"] "/w" "t" := by
  obtain ⟨htask, hcommand, hworkspace⟩ := colon_only hx
  rw [htask, hcommand, hworkspace]

theorem colon_mac (key text : String) :
    (colonEnv.hmac key text).length = 64 ∧ isAscii (colonEnv.hmac key text) = true := by
  change String.length "edc4505edf8a424ecaf68d093642f0406dca78c0aeb9a5c247f9eed5aaea2011" = 64 ∧
    isAscii "edc4505edf8a424ecaf68d093642f0406dca78c0aeb9a5c247f9eed5aaea2011" = true
  decide

theorem colon_agree :
    Complete colonDeployment "s" colonBuiltins ∧
      SoundFor colonDeployment "s" colonBuiltins "y:z" "t" ["true"] "/w" ↔
    ¬ Confusable colonDeployment "s" "y:z" "t" ["true"] "/w" :=
  agree_iff colon_hex colon_fixed colon_mac
    (fun _ _ t h => by simpa [colonBuiltins] using congrArg String.toList h)
    (fun _ _ _ _ => Int.add_le_add) colon_free

/-- The ticket of the worker `y:z` serves the worker `z` as well, under another action. -/
theorem colon_confused : colonDeployment.Issued "s" colonIssuance ∧
    ¬ SoundFor colonDeployment "s" colonBuiltins "z" "t" ["true"] "/w" := by
  refine ⟨colon_issued, confused colon_hex colon_mac ?_⟩
  exact ⟨colonIssuance, "y", colon_issued, rfl, rfl, rfl, rfl, .inr 60, 0, rfl, rfl, rfl⟩

end Sample

end SubagentBridge.TrustedAuthority
