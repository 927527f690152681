import SubagentBridge.Approval.FailedResolutions
import SubagentBridge.Library.Skipping

/-! The boundaries with their ledgers and without them: as long as no append finds its key taken,
the ledgers only add their events. -/

namespace SubagentBridge.OperatorBoundary

open Library

/-! ## What is appended -/

section Payloads

variable {τ : Type}

theorem isBlank_append_left {s t : String} (h : isBlank s = false) : isBlank (s ++ t) = false := by
  simp only [isBlank, String.toList_append, List.all_append, Bool.and_eq_false_iff] at h ⊢
  exact .inl h

theorem isBlank_append_right {s t : String} (h : isBlank t = false) :
    isBlank (s ++ t) = false := by
  simp only [isBlank, String.toList_append, List.all_append, Bool.and_eq_false_iff] at h ⊢
  exact .inr h

theorem recordable_creation {actionId sessionId taskId digest nonce : String} {expiresAt : τ}
    (hblank : isBlank actionId = false) :
    ∃ data : Json τ, AuditLedger.scrubPayload "operator_approvals" actionId "REQUEST_CREATED"
      (.mapping [
        (some "action_id", .str actionId), (some "session_id", .str sessionId),
        (some "task_id", .str taskId), (some "command_digest", .str digest),
        (some "nonce", .str nonce), (some "expires_at", .float (some expiresAt))]) = .ok data := by
  have hfields : ∀ key ∈ ["action_id", "session_id", "task_id", "command_digest", "nonce",
      "expires_at"], AuditLedger.isPrivate key = false := by
    decide +kernel
  simp only [List.forall_mem_cons] at hfields
  obtain ⟨h₁, h₂, h₃, h₄, h₅, h₆, -⟩ := hfields
  have hstream : isBlank "operator_approvals" = false := by decide
  have hkind : isBlank "REQUEST_CREATED" = false := by decide
  simp [AuditLedger.scrubPayload, hblank, hstream, hkind, AuditLedger.scrub,
    AuditLedger.scrubItems, h₁, h₂, h₃, h₄, h₅, h₆, bind, Except.bind, Except.map, Dict.set,
    AuditLedger.requireFinite, Json.allFinite, finiteMembers]

theorem recordable_consumption {actionId sessionId taskId nonce : String} :
    ∃ data : Json τ, AuditLedger.scrubPayload "operator_approvals" (actionId ++ ":consume")
      "APPROVAL_CONSUMED" (.mapping [
        (some "action_id", .str actionId), (some "session_id", .str sessionId),
        (some "task_id", .str taskId), (some "nonce", .str nonce)]) = .ok data := by
  refine ⟨_, AuditLedger.scrubPayload_strings (d := [("action_id", actionId),
    ("session_id", sessionId), ("task_id", taskId), ("nonce", nonce)]) ⟨by decide, ?_, by decide⟩
    ?_ (by simp [Dict.keys])⟩
  · exact isBlank_append_right (by decide)
  · have hfields : ∀ key ∈ ["action_id", "session_id", "task_id", "nonce"],
        AuditLedger.isPrivate key = false := by
      decide +kernel
    simpa using hfields

theorem recordable_decision {actionId operatorId role channel notes : String}
    {decision : OperatorDecision} {answers : Dict String String} :
    ∃ data : Json τ, AuditLedger.scrubPayload "operator_approvals"
      (decisionKey actionId decision answers) "OPERATOR_DECISION" (.mapping
        (decisionPayload actionId decision operatorId role channel notes answers)) = .ok data := by
  have hstream : isBlank "operator_approvals" = false := by decide
  have hkind : isBlank "OPERATOR_DECISION" = false := by decide
  have hkey : isBlank (decisionKey actionId decision answers) = false := by
    rw [decisionKey]
    exact isBlank_append_left (isBlank_append_left (isBlank_append_left
      (isBlank_append_right (by decide))))
  simp [AuditLedger.scrubPayload, hstream, hkey, hkind, scrub_decisionPayload,
    requireFinite_decisionRecord, bind, Except.bind]

end Payloads

/-! ## Calls without their appends -/

section Detached

variable {τ : Type} [LinearOrder τ] [NatCast τ]

def Env.detached (E : Env τ) : Env τ :=
  { E with conf := fun self => { E.conf self with ledger := none } }

omit [LinearOrder τ] [NatCast τ] in
def unlogged : (o : Op τ) → Option o.Ret
  | .appendEvent _ _ _ _ => some ()
  | _ => none

def Recordable [FloatText τ] : Op τ → Prop
  | .appendEvent _ key kind payload => ∃ data : Json τ,
      AuditLedger.scrubPayload "operator_approvals" key kind payload = .ok data
  | _ => True

/-- The call `p₀` is what the call `p` does besides its appends. -/
structure Sheds [FloatText τ] {α : Type} (p p₀ : Call τ α) : Prop where
  skip : p.skip unlogged = p₀
  only : p.Only Recordable

variable [FloatText τ] {E : Env τ} {α β : Type} {self : Nat}

omit [LinearOrder τ] [NatCast τ] in
theorem recordable_of_unlogged {o : Op τ} (ho : unlogged o = none) : Recordable o := by
  cases o with
  | appendEvent => cases ho
  | _ => trivial

omit [LinearOrder τ] [NatCast τ] in
theorem sheds_unlogged {p : Call τ α} (hp : p.Only fun o => unlogged o = none) : Sheds p p :=
  ⟨hp.skip, hp.mono fun _ => recordable_of_unlogged⟩

omit [LinearOrder τ] [NatCast τ] in
theorem sheds_silent {p : Call τ α} (hp : p.Only Silent) : Sheds p p := by
  apply sheds_unlogged
  apply hp.mono
  intro o ho
  cases o with
  | appendEvent => exact ho.elim
  | _ => rfl

omit [LinearOrder τ] [NatCast τ] in
theorem sheds_ret (a : α) : Sheds (τ := τ) (.ret a) (.ret a) := ⟨rfl, trivial⟩

omit [LinearOrder τ] [NatCast τ] in
theorem Sheds.bind {p p₀ : Call τ α} {f f₀ : α → Call τ β} (hp : Sheds p p₀)
    (hf : ∀ a, Sheds (f a) (f₀ a)) : Sheds (p.bind f) (p₀.bind f₀) where
  skip := by
    rw [Proc.skip_bind, hp.skip]
    exact congrArg _ (funext fun a => (hf a).skip)
  only := hp.only.bind fun a => (hf a).only

theorem sheds_appendEvent {key kind : String}
    {payload : List (Option String × AuditLedger.Value τ)}
    (hdata : ∃ data : Json τ, AuditLedger.scrubPayload "operator_approvals" key kind
      (.mapping payload) = .ok data) :
    Sheds (appendEvent E self key kind payload) (appendEvent E.detached self key kind payload) := by
  rw [appendEvent]
  cases (E.conf self).ledger with
  | none => exact ⟨rfl, trivial⟩
  | some ledger => exact ⟨rfl, hdata, fun r => by cases r <;> trivial⟩

omit [LinearOrder τ] [NatCast τ] in
theorem sheds_ite {p : Prop} [Decidable p] {a a₀ b b₀ : Call τ α} (ha : Sheds a a₀)
    (hb : Sheds b b₀) : Sheds (if p then a else b) (if p then a₀ else b₀) := by
  split
  · exact ha
  · exact hb

omit [LinearOrder τ] [NatCast τ] in
theorem sheds_raise (e : Error) : Sheds (α := α) (τ := τ) (.raise e) (.raise e) := ⟨rfl, trivial⟩

omit [LinearOrder τ] [NatCast τ] in
theorem sheds_op {o : Op τ} (ho : unlogged o = none) : Sheds (perform o) (perform o) :=
  sheds_unlogged ((Proc.only_op (S := sig τ) o).mpr ho)

/-! ### The methods -/

variable {req : OperatorApprovalRequest τ} {actionId sessionId taskId workspacePath : String}
variable {command : List String}

theorem sheds_demandProof {decision : OperatorDecision} {operator : OperatorIdentity} :
    Sheds (demandProof E self req decision operator)
      (demandProof E.detached self req decision operator) :=
  sheds_silent (demandProof_silent ..)

theorem sheds_digest : Sheds (canonicalCommandDigest E command workspacePath taskId)
    (canonicalCommandDigest E.detached command workspacePath taskId) :=
  sheds_silent (canonicalCommandDigest_silent ..)

theorem sheds_createRequest [Add τ] {questions : List String} {ttlSeconds : Option τ} :
    Sheds (createRequest E self sessionId taskId command workspacePath questions ttlSeconds)
      (createRequest E.detached self sessionId taskId command workspacePath questions
        ttlSeconds) := by
  simp only [createRequest, Proc.bind_eq]
  apply sheds_ite (sheds_raise _)
  apply sheds_ite (sheds_raise _)
  apply (sheds_op rfl).bind
  intro now
  apply (sheds_op rfl).bind
  intro nonce
  apply sheds_digest.bind
  intro digest
  apply (sheds_op rfl).bind
  intro path
  apply (sheds_op rfl).bind
  intro _
  apply (sheds_silent insertRequest_silent).bind
  intro _
  exact (sheds_appendEvent (recordable_creation (isBlank_append_left (by decide)))).bind
    fun _ => sheds_ret _

theorem sheds_resolveRequest {decision : OperatorDecision} {operator : OperatorIdentity}
    {notes : String} {answers : Dict String String} :
    Sheds (resolveRequest E self actionId req decision operator notes answers)
      (resolveRequest E.detached self actionId req decision operator notes answers) := by
  simp only [resolveRequest, Proc.bind_eq]
  apply sheds_demandProof.bind
  intro _
  apply (sheds_appendEvent recordable_decision).bind
  intro _
  apply (sheds_unlogged (swapRequest_only rfl)).bind
  intro _
  exact (sheds_op rfl).bind fun _ => sheds_ret _

theorem sheds_resolveByOperator {decision : OperatorDecision} {operator : OperatorIdentity}
    {notes : String} {answers : Dict String String} :
    Sheds (resolveByOperator E self actionId decision operator notes answers)
      (resolveByOperator E.detached self actionId decision operator notes answers) := by
  simp only [resolveByOperator, Proc.bind_eq]
  apply (sheds_silent (Proc.only_require ..)).bind
  intro _
  apply (sheds_silent (demand_silent ((Proc.only_op (S := sig τ) _).mpr trivial))).bind
  intro _
  apply (sheds_silent (Proc.only_require ..)).bind
  intro _
  apply (sheds_op rfl).bind
  intro now
  apply (sheds_op rfl).bind
  intro found
  cases found with
  | none => exact sheds_raise _
  | some req =>
    apply sheds_ite
    · exact (sheds_silent expireIfDue_silent).bind fun _ => sheds_raise _
    apply sheds_ite (sheds_raise _)
    apply (sheds_op rfl).bind
    intro used
    apply (sheds_silent (Proc.only_require ..)).bind
    intro _
    exact sheds_resolveRequest

theorem sheds_issueTicket {digest : String} {expiry : τ} :
    Sheds (issueTicket E self req actionId sessionId taskId digest expiry)
      (issueTicket E.detached self req actionId sessionId taskId digest expiry) := by
  simp only [issueTicket, Proc.bind_eq]
  apply (sheds_op rfl).bind
  intro _
  apply (sheds_op rfl).bind
  intro _
  exact (sheds_appendEvent recordable_consumption).bind fun _ => sheds_ret _

theorem sheds_consumeRow {now : τ} : Sheds (consumeRow E self req now)
    (consumeRow E.detached self req now) := by
  apply sheds_unlogged
  refine Proc.Only.tryCatch (Proc.Only.bind ?_ fun _ => trivial) fun _ => trivial
  exact (Proc.only_op _).mpr rfl

theorem sheds_consumeApproved [Add τ] {ttl now : τ} :
    Sheds (consumeApproved E self req actionId sessionId taskId command workspacePath ttl now)
      (consumeApproved E.detached self req actionId sessionId taskId command workspacePath ttl
        now) := by
  simp only [consumeApproved, Proc.bind_eq]
  apply (sheds_op rfl).bind
  intro used
  apply sheds_ite (sheds_ret _)
  apply sheds_ite (sheds_ret _)
  apply sheds_ite (sheds_ret _)
  apply sheds_digest.bind
  intro expected
  apply sheds_digest.bind
  intro actual
  apply sheds_ite (sheds_ret _)
  apply sheds_consumeRow.bind
  intro n
  cases n with
  | none => exact sheds_ret _
  | some rowcount => exact sheds_ite (sheds_ret _) sheds_issueTicket

theorem sheds_consumeForExecution [Add τ] {ttl : τ} :
    Sheds (consumeForExecution E self actionId sessionId taskId command workspacePath ttl)
      (consumeForExecution E.detached self actionId sessionId taskId command workspacePath
        ttl) := by
  simp only [consumeForExecution, Proc.bind_eq]
  apply sheds_ite (sheds_ret _)
  apply (sheds_op rfl).bind
  intro now
  apply (sheds_op rfl).bind
  intro found
  cases found with
  | none => exact sheds_ret _
  | some req =>
    apply sheds_ite
    · exact (sheds_silent expireIfDue_silent).bind fun _ => sheds_ret _
    apply sheds_ite (sheds_ret _)
    apply sheds_ite (sheds_ret _)
    apply sheds_ite (sheds_ret _)
    apply sheds_ite (sheds_ret _)
    exact sheds_consumeApproved

theorem sheds_body [Add τ] (q : Request τ) : Sheds (body E q) (body E.detached q) := by
  cases q with
  | createRequest => exact sheds_createRequest.bind fun _ => sheds_ret _
  | resolveByOperator => exact sheds_resolveByOperator.bind fun _ => sheds_ret _
  | consumeForExecution => exact sheds_consumeForExecution.bind fun _ => sheds_ret _
  | rehydrateFromDisk => exact (sheds_silent rehydrateFromDisk_silent).bind fun _ => sheds_ret _
  | getRequest => exact (sheds_silent getRequest_silent).bind fun _ => sheds_ret _
  | listPending => exact (sheds_silent listPending_silent).bind fun _ => sheds_ret _

end Detached

/-! ## Runs -/

section Runs

variable {τ : Type} [LinearOrder τ] [NatCast τ] [Add τ] [FloatText τ] {E : Env τ}
variable {c c' c₀ : Calls E} {ls : List (machine E).Label} {i : Nat} {w : World τ}
variable {s t : State τ} {q : Request τ} {o : Op τ} {h : History τ} {a : String}

def detach (ls : List (machine E).Label) : List (machine E.detached).Label :=
  (Machine.shown unlogged (body E.detached) (start E) ls :)

def unused (c : Calls E) : (machine E).Label → Bool
  | .start _ => true
  | .act i w =>
    match c.calls[i]? with
    | some ⟨_, .call (.appendEvent ledger key _ _) _, _⟩ =>
      !w.fails && ((c.state.ledgers ledger).findKey "operator_approvals" key).isNone
    | _ => true

abbrev Unused (c : Calls E) (l : (machine E).Label) : Prop := unused c l = true

theorem unused_append {ledger : Nat} {key kind : String} {payload : AuditLedger.Value τ}
    {k : Except Error Unit → Call τ (Response τ)} (hunused : Unused c (.act i w))
    (hc : c.calls[i]? = some ⟨q, .call (.appendEvent ledger key kind payload) k, h⟩) :
    w.fails = false ∧ (c.state.ledgers ledger).findKey "operator_approvals" key = none := by
  simpa [Unused, unused, hc] using hunused

def Detaches (E : Env τ) (s t : State τ) : Prop :=
  t = { s with ledgers := (initial : State τ).ledgers } ∧ ∀ L,
    AuditLedger.Sound τ E.sha256 (s.ledgers L)

omit [Add τ] in
theorem exec_append_fresh (hs : ∀ L, AuditLedger.Sound τ E.sha256 (s.ledgers L)) {ledger : Nat}
    {key kind : String} {payload : AuditLedger.Value τ}
    (hdata : ∃ data : Json τ,
      AuditLedger.scrubPayload "operator_approvals" key kind payload = .ok data)
    (hfails : w.fails = false)
    (hfree : (s.ledgers ledger).findKey "operator_approvals" key = none) :
    (exec E (.appendEvent ledger key kind payload) w s).1 = .ok () ∧
      ∃ data : Json τ, AuditLedger.scrubPayload "operator_approvals" key kind payload = .ok data ∧
        ((exec E (.appendEvent ledger key kind payload) w s).2.ledgers ledger).rows
            "operator_approvals" =
          (s.ledgers ledger).rows "operator_approvals" ++
            [AuditLedger.nextRow E.sha256 "operator_approvals" key kind
              (AuditLedger.canonical data) ((s.ledgers ledger).rows "operator_approvals")] := by
  obtain ⟨data, hdata⟩ := hdata
  rw [exec, hfails]
  simp only [succeed, State.appendEvent, AuditLedger.appendOnce, hdata, AuditLedger.transaction,
    (hs ledger).appendData_fresh hfree, Function.update_self]
  refine ⟨rfl, data, rfl, ?_⟩
  rw [AuditLedger.rows_record, if_pos rfl]

omit [Add τ] in
theorem exec_append_ledgers (E : Env τ) (ledger : Nat) (key kind : String)
    (payload : AuditLedger.Value τ) (w : World τ) (s : State τ)
    (ledgers : Nat → AuditLedger.Db) :
    { (exec E (.appendEvent ledger key kind payload) w s).2 with ledgers } =
      { s with ledgers } := by
  rw [exec]
  split <;> rfl

omit [Add τ] in
theorem exec_unlogged (E : Env τ) (ho : unlogged o = none) (w : World τ) (s : State τ)
    (ledgers : Nat → AuditLedger.Db) :
    (exec E o w { s with ledgers }).1 = (exec E o w s).1 ∧
      (exec E o w { s with ledgers }).2 = { (exec E o w s).2 with ledgers } := by
  cases o with
  | appendEvent => cases ho
  | insertRow req =>
    rw [exec, exec]
    split
    · exact ⟨rfl, rfl⟩
    · simp only [succeed, State.insertRow]
      split <;> exact ⟨rfl, rfl⟩
  | _ =>
    rw [exec, exec]
    split <;> exact ⟨rfl, rfl⟩

theorem detaches_step : Machine.Skips (M := machine E) unlogged (Detaches E) fun c l =>
    (∀ call ∈ c.calls, call.proc.Only Recordable) ∧ Unused c l where
  dropped c i w c' q o k h t a hG hact hR ho := by
    obtain ⟨honly, hunused⟩ := hG
    obtain ⟨rfl, hs⟩ := hR
    cases o with
    | appendEvent ledger key kind payload =>
      have hdata := (honly _ (List.mem_of_getElem? hact.call)).1
      obtain ⟨hfails, hfree⟩ := unused_append hunused hact.call
      obtain ⟨hok, -⟩ := exec_append_fresh hs hdata hfails hfree
      exact ⟨hok, (exec_append_ledgers ..).symm, (ledger_exec hs _ w).1⟩
    | _ => cases ho
  kept o w s t ho hR := by
    obtain ⟨rfl, hs⟩ := hR
    obtain ⟨hans, hstate⟩ := exec_unlogged E ho w s initial.ledgers
    refine ⟨?_, hans.symm, hstate, (ledger_exec hs o w).1⟩
    cases o <;> rfl

theorem only_recordable {G : Calls E → (machine E).Label → Prop}
    (hrun : Path (Step E) G (start E) ls c) : ∀ call ∈ c.calls, call.proc.Only Recordable :=
  Machine.only_run (A := fun _ => Recordable) (fun q => (sheds_body q).only) hrun

/-! ### Own events -/

def Appends (E : Env τ) (self : Nat) (actionId : String) (decision : OperatorDecision)
    (operator : OperatorIdentity) (notes : String) (h : History τ) :
    Except Error (OperatorApprovalRequest τ) → Prop
  | .ok req => ∀ ledger, (E.conf self).ledger = some ledger →
      ⟨decisionEvent ledger actionId decision operator notes req.answers, .ok ()⟩ ∈ h
  | .error _ => True

abbrev anything : Protocol (sig τ) Error :=
  .ofHistory (fun (_ : Request τ) _ _ => True) fun _ _ => True

omit [LinearOrder τ] [NatCast τ] [Add τ] [FloatText τ] in
theorem anything_bind {α β : Type} {Q : Request τ × History τ → Except Error β → Prop}
    {p : Call τ α} {f : α → Call τ β} (herr : ∀ m e, Q m (.error e))
    (hf : ∀ h' a, h <+: h' → (f a).Follows anything Q (q, h')) :
    (p.bind f).Follows anything Q (q, h) := by
  refine ((Proc.only_of_forall (fun _ => trivial) p).follows_history
    fun _ _ _ _ => trivial).bind ?_ fun m e _ => herr m e
  rintro ⟨q, h'⟩ a ⟨rfl, hh⟩
  exact hf h' a hh

section Resolve

variable {self : Nat} {actionId notes : String} {decision : OperatorDecision}
variable {operator : OperatorIdentity} {answers : Dict String String}
variable {req : OperatorApprovalRequest τ}

omit [Add τ] [FloatText τ] in
theorem resolveRequest_appends :
    (resolveRequest E self actionId req decision operator notes answers).Follows anything
      (fun m => Appends E self actionId decision operator notes m.2) (q, h) := by
  simp only [resolveRequest, Proc.bind_eq]
  apply anything_bind fun _ _ => trivial
  intro h₁ _ _
  refine (appendEvent_recorded (fun _ _ _ _ => trivial) ..).bind ?_ fun _ _ _ => trivial
  rintro ⟨q, h₂⟩ _ ⟨⟨rfl, -⟩, hevent⟩
  apply anything_bind fun _ _ => trivial
  intro h₃ _ hh₃
  apply anything_bind fun _ _ => trivial
  intro h₄ _ hh₄ ledger hledger
  exact (hh₃.trans hh₄).subset (hevent rfl ledger hledger)

omit [Add τ] [FloatText τ] in
theorem resolveByOperator_appends :
    (resolveByOperator E self actionId decision operator notes answers).Follows anything
      (fun m => Appends E self actionId decision operator notes m.2) (q, h) := by
  simp only [resolveByOperator, Proc.bind_eq]
  apply anything_bind fun _ _ => trivial
  intro h₁ _ _
  apply anything_bind fun _ _ => trivial
  intro h₂ _ _
  apply anything_bind fun _ _ => trivial
  intro h₃ _ _
  apply anything_bind fun _ _ => trivial
  intro h₄ now _
  apply anything_bind fun _ _ => trivial
  intro h₅ found _
  cases found with
  | none => trivial
  | some req =>
    dsimp only
    split
    · exact anything_bind (fun _ _ => trivial) fun _ _ _ => trivial
    split
    · trivial
    apply anything_bind fun _ _ => trivial
    intro h₆ _ _
    apply anything_bind fun _ _ => trivial
    intro h₇ _ _
    exact resolveRequest_appends

end Resolve

def Recorded (E : Env τ) : Request τ → History τ → Except Error (Response τ) → Prop
  | .resolveByOperator self actionId decision operator notes _, h, .ok (.request req) =>
    Appends E self actionId decision operator notes h (.ok req)
  | _, _, _ => True

omit [FloatText τ] in
theorem body_recorded (q : Request τ) :
    (body E q).Follows anything (fun m => Recorded E q m.2) (q, []) := by
  cases q with
  | resolveByOperator self actionId decision operator notes answers =>
    refine resolveByOperator_appends.bind ?_ fun _ _ _ => trivial
    exact fun m req happ => happ
  | _ => exact ((Proc.only_of_forall (fun _ => trivial) _).follows_history
      fun _ _ _ _ => trivial).mono fun _ _ _ => trivial

/-- A decision that was accepted has an event of its own in the ledger: its call appended it. -/
structure OwnEvent (E : Env τ) (ls : List (machine E).Label) (c : Calls E) (i : Nat)
    (q : Request τ) (ledger : Nat) (key : String) (payload : AuditLedger.Value τ) : Prop where
  added : ∃ h ls₁ w c₁ c₂ data, Machine.Performs (M := machine E) initial ls c i q h
      ⟨.appendEvent ledger key "OPERATOR_DECISION" payload, .ok ()⟩ ls₁ w c₁ c₂ ∧
    AuditLedger.scrubPayload "operator_approvals" key "OPERATOR_DECISION" payload =
      .ok (data : Json τ) ∧
    (c₂.state.ledgers ledger).rows "operator_approvals" =
      (c₁.state.ledgers ledger).rows "operator_approvals" ++
        [AuditLedger.nextRow E.sha256 "operator_approvals" key "OPERATOR_DECISION"
          (AuditLedger.canonical data) ((c₁.state.ledgers ledger).rows "operator_approvals")]
  kept : (c.state.ledgers ledger).Records "operator_approvals" key "OPERATOR_DECISION" payload

theorem ownEvent (hrun : Path (Step E) Unused (start E) ls c) {call : (machine E).Activity}
    (hc : c.calls[i]? = some call) {self : Nat} {actionId notes : String}
    {decision : OperatorDecision} {operator : OperatorIdentity} {answers : Dict String String}
    {req : OperatorApprovalRequest τ} {ledger : Nat}
    (hq : call.request = .resolveByOperator self actionId decision operator notes answers)
    (hr : call.proc.result = some (.ok (.request req)))
    (hledger : (E.conf self).ledger = some ledger) :
    OwnEvent E ls c i call.request ledger (decisionKey actionId decision req.answers)
      (.mapping (decisionPayload actionId decision operator.operatorId operator.role
        operator.channel notes req.answers)) := by
  have hfin := Machine.finished (P := anything) (Q := fun q (m : Request τ × History τ) =>
    Recorded E q m.2)
    (fun q => body_recorded q) (fun _ _ _ _ _ _ => trivial) hrun (List.mem_of_getElem? hc) hr
  rw [Machine.Activity.mode, Protocol.after_ofHistory, hq] at hfin
  have hmem := hfin ledger hledger
  obtain ⟨h, h', hh⟩ := List.append_of_mem hmem
  obtain ⟨ls₁, w, c₁, c₂, hper⟩ := Machine.performs_of_hist hrun.run hc hh
  refine ⟨?_, records_of_hist hrun.run hc hmem⟩
  obtain ⟨ls₂, hls, h₂⟩ := hper.split
  obtain ⟨k, hact⟩ := hper.acts
  subst hls
  obtain ⟨d, hrun₁, hrun₂⟩ := hrun.split
  obtain rfl := hrun₁.unique hper.before
  obtain ⟨d', hG, -, -⟩ := hrun₂.uncons
  obtain ⟨hfails, hfree⟩ := unused_append hG hact.call
  obtain ⟨-, data, hdata, hrows⟩ := exec_append_fresh (ledgers_sound hper.before)
    (only_recordable hrun₁ _ (List.mem_of_getElem? hact.call)).1 hfails hfree
  exact ⟨h, ls₁, w, d, c₂, data, hper, hdata, by rw [hact.result]; exact hrows⟩

/-- The ledgers of a run have only added to it: the boundaries without them come to the same rows,
every call ends the same way there, and each decision that was accepted has its own event. -/
structure Independent (E : Env τ) (ls : List (machine E).Label) (c : Calls E) : Prop where
  same : ∃ c₀ : Calls E.detached, Library.Run (Step E.detached) (start E.detached) (detach ls) c₀ ∧
    c₀.state.rows = c.state.rows ∧ c₀.state.requests = c.state.requests ∧
    c₀.calls.length = c.calls.length ∧
    ∀ (i : Nat) (call : (machine E).Activity), c.calls[i]? = some call →
      ∃ call₀, c₀.calls[i]? = some call₀ ∧ call₀.request = call.request ∧
        ∀ r, call.proc.result = some r → call₀.proc.result = some r
  events : ∀ (i : Nat) (call : (machine E).Activity) self actionId decision operator notes answers
      req ledger, c.calls[i]? = some call →
    call.request = .resolveByOperator self actionId decision operator notes answers →
    call.proc.result = some (.ok (.request req)) → (E.conf self).ledger = some ledger →
      OwnEvent E ls c i call.request ledger (decisionKey actionId decision req.answers)
        (.mapping (decisionPayload actionId decision operator.operatorId operator.role
          operator.channel notes req.answers))

end Runs

/-! ## Two sets of answers under one key -/

section Collision

def corrected (answer : String) : Request Int :=
  .resolveByOperator 0 "act_digest" .answerQuestions raceOperator "" [("q", answer)]

def answeredTwice : List (machine ledgerEnv).Label :=
  ledgerStart (.createRequest 0 "s" "t" ["ls"] "/w" ["q"] none) :: ledgerActs 0 7 0 ++
  ledgerStart (corrected "a") :: ledgerActs 1 7 1 ++
  ledgerStart (corrected "b") :: ledgerActs 2 5 2

def answeredAlone : List (machine ledgerEnv.detached).Label :=
  .start (.createRequest 0 "s" "t" ["ls"] "/w" ["q"] none) ::
    List.replicate 6 (.act 0 (raceWorld 0)) ++
  .start (corrected "a") :: List.replicate 6 (.act 1 (raceWorld 1)) ++
  .start (corrected "b") :: List.replicate 6 (.act 2 (raceWorld 2))

def asked : List (Request Int) :=
  [.createRequest 0 "s" "t" ["ls"] "/w" ["q"] none, corrected "a", corrected "b"]

def answersOf {E : Env Int} (c : Calls E) : List (Option String) :=
  c.state.rows.map (·.answersJson)

def third {E : Env Int} (c : Calls E) : Option (Except Error (Response Int)) :=
  c.calls[2]?.bind (·.proc.result)

def accepted : Option (Except Error (Response Int)) → Bool
  | some (.ok _) => true
  | _ => false

def conflict : Error :=
  .ledger (.replayConflict "idempotency key reused for a different event")

def answeredMore : List (machine ledgerEnv).Label :=
  ledgerStart (.createRequest 0 "s" "t" ["ls"] "/w" ["q", "r"] none) :: ledgerActs 0 7 0 ++
  ledgerStart (corrected "a") :: ledgerActs 1 7 1 ++
  ledgerStart (.resolveByOperator 0 "act_digest" .answerQuestions raceOperator "" [("r", "b")]) ::
    ledgerActs 2 7 2

end Collision

end SubagentBridge.OperatorBoundary
