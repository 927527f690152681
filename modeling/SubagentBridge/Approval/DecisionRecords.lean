import SubagentBridge.Approval.OperatorBoundaryCalls
import SubagentBridge.Storage.AuditLedgerRuns

/-! Every decision in the table of the boundaries is in their audit ledger: the event is on
record before the row is written, and the ledger forgets nothing. -/

namespace SubagentBridge.OperatorBoundary

open Library

/-! ## What the ledger keeps of a decision -/

section Payload

variable {F : Type}

def decisionKey (actionId : String) (decision : OperatorDecision) (answers : Dict String String) :
    String :=
  actionId ++ ":decision:" ++ decision.value ++ ":" ++ toString answers.length

def decisionPayload (actionId : String) (decision : OperatorDecision)
    (operatorId role channel notes : String) (answers : Dict String String) :
    List (Option String × AuditLedger.Value F) :=
  [(some "action_id", .str actionId), (some "decision", .str decision.value),
    (some "operator_id", .str operatorId), (some "operator_role", .str role),
    (some "operator_channel", .str channel), (some "state", .str decision.target.value),
    (some "notes", .str notes),
    (some "answers", .mapping (answers.map fun p => (some p.1, .str p.2)))]

def decisionRecord (actionId : String) (decision : OperatorDecision)
    (operatorId role channel notes : String) (answers : Dict String String) : Json F :=
  .obj [("action_id", .str actionId), ("decision", .str decision.value),
    ("operator_id", .str operatorId), ("operator_role", .str role),
    ("operator_channel", .str channel), ("state", .str decision.target.value),
    ("notes", .str notes), ("answers", .ofDict (Dict.update [] (AuditLedger.redacted answers)))]

theorem scrub_decisionPayload (actionId operatorId role channel notes : String)
    (decision : OperatorDecision) (answers : Dict String String) :
    AuditLedger.scrub (.mapping
      (decisionPayload actionId decision operatorId role channel notes answers)) =
      .ok (decisionRecord actionId decision operatorId role channel notes answers :
        Json (Option F)) := by
  have hanswers := AuditLedger.scrubItems_strings (F := F) [] answers
  simp only [List.map_nil] at hanswers
  have hfields : ∀ key ∈ ["action_id", "decision", "operator_id", "operator_role",
      "operator_channel", "state", "notes", "answers"], AuditLedger.isPrivate key = false := by
    decide +kernel
  simp only [List.forall_mem_cons] at hfields
  obtain ⟨h₁, h₂, h₃, h₄, h₅, h₆, h₇, h₈, -⟩ := hfields
  simp [AuditLedger.scrub, AuditLedger.scrubItems, decisionPayload, h₁, h₂, h₃, h₄, h₅, h₆, h₇,
    h₈, hanswers, bind, Except.bind, Except.map, Dict.set, decisionRecord, Json.ofDict]

theorem requireFinite_decisionRecord (actionId operatorId role channel notes : String)
    (decision : OperatorDecision) (answers : Dict String String) :
    AuditLedger.requireFinite (decisionRecord actionId decision operatorId role channel notes
      answers : Json (Option F)) =
      .ok (decisionRecord actionId decision operatorId role channel notes answers) := by
  simp only [AuditLedger.requireFinite, decisionRecord, Json.allFinite, finiteMembers,
    allFinite_ofDict, Option.bind_some, Option.map_some]

theorem scrubPayload_decision {key kind actionId operatorId role channel notes : String}
    {decision : OperatorDecision} {answers : Dict String String} {data : Json F}
    (h : AuditLedger.scrubPayload "operator_approvals" key kind (.mapping
      (decisionPayload actionId decision operatorId role channel notes answers)) = .ok data) :
    data = decisionRecord actionId decision operatorId role channel notes answers := by
  simp only [AuditLedger.scrubPayload, scrub_decisionPayload, requireFinite_decisionRecord, bind,
    Except.bind] at h
  split at h
  · cases h
  · exact (Except.ok.inj h).symm

end Payload

/-! ## The discipline of a call -/

section Discipline

variable {τ : Type} [LinearOrder τ] [NatCast τ] (E : Env τ)

abbrev decisionEvent (ledger : Nat) (actionId : String) (decision : OperatorDecision)
    (operator : OperatorIdentity) (notes : String) (answers : Dict String String) : Op τ :=
  .appendEvent ledger (decisionKey actionId decision answers) "OPERATOR_DECISION"
    (.mapping (decisionPayload actionId decision operator.operatorId operator.role
      operator.channel notes answers))

/-- A row leaves its state by its deadline, or by a resolution whose event went to the ledger. -/
def Logged (q : Request τ) (h : History τ) : Op τ → Prop
  | .updateRow req expected => req.state = .expired ∨
      ∃ self actionId decision operator notes answers,
        q = .resolveByOperator self actionId decision operator notes answers ∧
        ⟨.getRequest self actionId, .ok (some expected)⟩ ∈ h ∧
        req = expected.resolved (E.conf self).decisionVerifier decision operator notes answers ∧
        ∀ ledger, (E.conf self).ledger = some ledger →
          ⟨decisionEvent ledger actionId decision operator notes req.answers, .ok ()⟩ ∈ h
  | _ => True

variable {E} {q : Request τ} {h : History τ} {self : Nat} {req : OperatorApprovalRequest τ}

theorem logged_of_harmless (q : Request τ) (h : History τ) (o : Op τ) (ho : Harmless o) :
    Logged E q h o := by
  cases o with
  | updateRow req expected => exact .inl ho
  | _ => trivial

theorem logged_of_consuming {o : Op τ} (ho : Consuming E self o) : Logged E q h o := by
  rcases ho with ho | ⟨a, n, now, rfl⟩
  · exact logged_of_harmless _ _ _ ho
  · trivial

theorem appendEvent_recorded {B : Request τ → History τ → Op τ → Prop}
    (hB : ∀ q h o, Harmless o → B q h o) (key kind : String)
    (payload : List (Option String × AuditLedger.Value τ)) :
    (appendEvent E self key kind payload).Follows (.ofHistory B fun _ _ => True)
      (fun m r => (m.1 = q ∧ h <+: m.2) ∧ (r = .ok () → ∀ ledger,
        (E.conf self).ledger = some ledger →
          ⟨.appendEvent ledger key kind (.mapping payload), .ok ()⟩ ∈ m.2)) (q, h) := by
  rw [appendEvent]
  cases hl : (E.conf self).ledger with
  | none => exact ⟨⟨rfl, List.prefix_rfl⟩, fun _ _ hledger => by cases hledger⟩
  | some ledger =>
    refine ⟨hB _ _ _ trivial, ?_⟩
    rintro (e | a) -
    · exact ⟨⟨rfl, List.prefix_append ..⟩, by rintro ⟨⟩⟩
    · refine ⟨⟨rfl, List.prefix_append ..⟩, fun _ ledger' hledger => ?_⟩
      obtain rfl := Option.some.inj hledger
      exact List.mem_append_right _ (List.mem_singleton.mpr rfl)

theorem resolveRequest_logged {actionId notes : String} {decision : OperatorDecision}
    {operator : OperatorIdentity} {answers : Dict String String}
    (hget : ⟨.getRequest self actionId, .ok (some req)⟩ ∈ h) :
    Keeps (Logged E) (resolveRequest E self actionId req decision operator notes answers)
      (.resolveByOperator self actionId decision operator notes answers) h := by
  simp only [resolveRequest, persistRequest, Proc.bind_eq]
  refine harmless_bind logged_of_harmless (harmless_of_silent (demandProof_silent ..))
    fun h₁ _ hh₁ => ?_
  refine (appendEvent_recorded logged_of_harmless ..).bind ?_ fun _ _ _ => trivial
  rintro ⟨q, h₂⟩ _ ⟨⟨rfl, hh₂⟩, hevent⟩
  refine keeps_bind ?_ fun m _ => ?_
  · refine ((swapRequest_only rfl).follows_history ?_).mono fun _ _ _ => trivial
    rintro h₃ hh₃ o rfl
    refine .inr ⟨self, actionId, decision, operator, notes, answers, rfl, ?_, rfl, ?_⟩
    · exact ((hh₁.trans hh₂).trans hh₃).subset hget
    · intro ledger hledger
      exact hh₃.subset (hevent rfl ledger hledger)
  · exact harmless_bind logged_of_harmless ((Proc.only_op _).mpr trivial) fun _ _ _ => trivial

theorem body_logged [Add τ] (q : Request τ) : Keeps (Logged E) (body E q) q [] :=
  body_keeps logged_of_harmless (fun _ _ _ _ _ _ _ _ _ => logged_of_consuming)
    (fun _ _ _ _ _ _ _ _ => resolveRequest_logged) q

end Discipline

/-! ## Runs -/

section Runs

variable {τ : Type} [LinearOrder τ] [NatCast τ] [Add τ] [FloatText τ] {E : Env τ}
variable {c c' : Calls E} {ls ls' : List (machine E).Label} {i : Nat} {w : World τ}
variable {s : State τ} {q : Request τ} {o : Op τ} {h : History τ} {a : String}

omit [Add τ] in
theorem ledger_exec (hs : ∀ L, AuditLedger.Sound τ E.sha256 (s.ledgers L)) (o : Op τ)
    (w : World τ) :
    (∀ L, AuditLedger.Sound τ E.sha256 ((exec E o w s).2.ledgers L)) ∧
      ∀ L stream, (s.ledgers L).rows stream <+: ((exec E o w s).2.ledgers L).rows stream := by
  rw [exec]
  split
  · exact ⟨hs, fun _ _ => List.prefix_rfl⟩
  cases o with
  | appendEvent ledger key kind payload =>
    have hcases := (hs ledger).appendOnce_cases "operator_approvals" key kind payload
    simp only [succeed, State.appendEvent]
    constructor
    · intro L
      rw [Function.update_apply]
      split
      · exact hcases.sound (hs ledger)
      · exact hs L
    · intro L stream
      rw [Function.update_apply]
      split
      next hL => exact hL ▸ hcases.grows stream
      next => exact List.prefix_rfl
  | insertRow req =>
    simp only [succeed, State.insertRow]
    split <;> exact ⟨hs, fun _ _ => List.prefix_rfl⟩
  | _ => exact ⟨hs, fun _ _ => List.prefix_rfl⟩

omit [Add τ] in
theorem records_exec (hs : ∀ L, AuditLedger.Sound τ E.sha256 (s.ledgers L)) {ledger : Nat}
    {key kind : String} {payload : AuditLedger.Value τ} {w : World τ}
    (hok : (exec E (.appendEvent ledger key kind payload) w s).1 = .ok ()) :
    ((exec E (.appendEvent ledger key kind payload) w s).2.ledgers ledger).Records
      "operator_approvals" key kind payload := by
  have hcases := (hs ledger).appendOnce_cases "operator_approvals" key kind payload
  rw [exec] at hok ⊢
  split at hok
  · cases hok
  simp only [succeed, State.appendEvent, Function.update_self] at hok ⊢
  generalize AuditLedger.appendOnce E.sha256 "operator_approvals" key kind payload
    (s.ledgers ledger) = x at hcases hok ⊢
  obtain ⟨_ | e, db⟩ := x
  · cases hok
  · exact hcases.records

theorem ledgers_sound (hrun : Library.Run (Step E) (start E) ls c) (L : Nat) :
    AuditLedger.Sound τ E.sha256 (c.state.ledgers L) := by
  induction hrun generalizing L with
  | refl => exact AuditLedger.sound_empty
  | @tail c c' ls l _ _ hs ih =>
    cases l with
    | start q => exact Machine.step_start hs ▸ ih L
    | act i w =>
      obtain ⟨q, o, k, h, hact⟩ := Machine.step_act hs
      exact hact.result ▸ (ledger_exec ih o w).1 L

theorem ledgers_grow (hrun : Library.Run (Step E) (start E) ls c)
    (hrun' : Library.Run (Step E) c ls' c') (L : Nat) (stream : String) :
    (c.state.ledgers L).rows stream <+: (c'.state.ledgers L).rows stream := by
  induction hrun' with
  | refl => exact List.prefix_rfl
  | @tail c₁ c₂ ls' l hp _ hs ih =>
    refine ih.trans ?_
    cases l with
    | start q => exact Machine.step_start hs ▸ List.prefix_rfl
    | act i w =>
      obtain ⟨q, o, k, h, hact⟩ := Machine.step_act hs
      exact hact.result ▸ (ledger_exec (ledgers_sound (hrun.trans hp)) o w).2 L stream

theorem records_of_hist (hrun : Library.Run (Step E) (start E) ls c)
    {call : (machine E).Activity} (hc : c.calls[i]? = some call) {ledger : Nat}
    {key kind : String} {payload : AuditLedger.Value τ}
    (he : ⟨.appendEvent ledger key kind payload, .ok ()⟩ ∈ call.hist) :
    (c.state.ledgers ledger).Records "operator_approvals" key kind payload := by
  obtain ⟨h, h', hh⟩ := List.append_of_mem he
  obtain ⟨ls₁, w, c₁, c₂, hper⟩ := Machine.performs_of_hist hrun hc hh
  obtain ⟨ls₂, -, h₂⟩ := hper.split
  obtain ⟨k, hact⟩ := hper.acts
  have hrec := records_exec (ledgers_sound hper.before) hper.answer
  have hbefore : Library.Run (Step E) (start E) (ls₁ ++ [.act i w]) c₂ :=
    .tail hper.before trivial hact.isStep
  rw [hact.result] at h₂ hbefore
  exact hrec.mono fun stream => ledgers_grow hbefore h₂ ledger stream

theorem acts_logged (hrun : Library.Run (Step E) (start E) ls c)
    {k : Except Error o.Ret → Call τ (Response τ)} (hact : Machine.Acts c i w c' q o k h) :
    Logged E q h o := by
  have ha := hact.allowed (P := .ofHistory (Logged E) fun _ _ => True) (Q := fun _ _ _ => True)
    body_logged (fun _ _ _ _ _ _ => trivial) hrun
  rwa [Protocol.after_ofHistory] at ha

def ApprovalState.decided : ApprovalState → Bool
  | .approved | .denied | .questionPending | .consumed => true
  | .blocked | .expired => false

def OnRecord (F : Type) [FloatText F] (db : AuditLedger.Db) (r : Row τ) : Prop :=
  ∃ decision operatorId role channel notes answers,
    r.decision = some decision ∧ r.operatorId = some operatorId ∧ r.operatorRole = some role ∧
    r.operatorChannel = some channel ∧ r.operatorNotes = some notes ∧
    r.answersJson = some (dumpDict answers) ∧
    (r.state = decision.target ∨ r.state = .consumed ∧ decision = .allowOnce) ∧
    ∃ event ∈ db.rows "operator_approvals",
      event.key = decisionKey r.actionId decision answers ∧ event.kind = "OPERATOR_DECISION" ∧
      event.payloadJson = AuditLedger.canonical (decisionRecord r.actionId decision operatorId
        role channel notes answers : Json F)

omit [LinearOrder τ] [NatCast τ] [Add τ] [FloatText τ] in
theorem OnRecord.mono {F : Type} [FloatText F] {db db' : AuditLedger.Db} {r : Row τ}
    (hr : OnRecord F db r) (hp : ∀ stream, db.rows stream <+: db'.rows stream) :
    OnRecord F db' r := by
  obtain ⟨d, o, ro, ch, n, ans, h₁, h₂, h₃, h₄, h₅, h₆, h₇, event, hevent, h₈⟩ := hr
  exact ⟨d, o, ro, ch, n, ans, h₁, h₂, h₃, h₄, h₅, h₆, h₇, event, (hp _).subset hevent, h₈⟩

theorem onRecord_of_logged (hrun : Library.Run (Step E) (start E) ls c) {L : Nat}
    (hL : ∀ self, (E.conf self).ledger = some L)
    {k : Except Error o.Ret → Call τ (Response τ)} {req expected : OperatorApprovalRequest τ}
    (hact : Machine.Acts c i w c' q o k h) (ho : o = .updateRow req expected)
    (hlog : Logged E q h o) (hst : req.state.decided = true) :
    OnRecord τ (c.state.ledgers L) req.toRow := by
  subst ho
  rcases hlog with hexp | ⟨self, a, decision, operator, notes, answers, rfl, hget, rfl, hevent⟩
  · rw [hexp] at hst
    cases hst
  obtain ⟨data, hdata, event, hmem, hkey, hkind, hbody⟩ :=
    records_of_hist hrun hact.call (hevent L (hL self))
  obtain rfl := scrubPayload_decision hdata
  obtain rfl := got_actionId hrun (records_call hact.call) hget
  exact ⟨decision, _, _, _, _, _, rfl, rfl, rfl, rfl, rfl, rfl, .inl rfl, event, hmem, hkey, hkind,
    hbody⟩

theorem decided_on_record (hrun : Library.Run (Step E) (start E) ls c) {L : Nat}
    (hL : ∀ self, (E.conf self).ledger = some L) {r : Row τ} (hr : c.state.row a = some r)
    (hst : r.state.decided = true) : OnRecord τ (c.state.ledgers L) r := by
  induction hrun generalizing r with
  | refl => cases hr
  | @tail c c' ls l hp _ hs ih =>
    have hgrow := ledgers_grow hp (.tail .refl trivial hs) L
    rcases row_step hp hs a with hrow | ⟨i, w, q, o, k, h, -, hact, hrow⟩
    · exact (ih (hrow ▸ hr) hst).mono hgrow
    have hlog := acts_logged hp hact
    rw [hr] at hrow
    generalize hx : c.state.row a = x at hrow
    cases hrow with
    | kept => exact (ih hx hst).mono hgrow
    | inserted req hblocked =>
      rw [show req.toRow.state = req.state from rfl, hblocked] at hst
      cases hst
    | updated req expected => exact (onRecord_of_logged hp hL hact rfl hlog hst).mono hgrow
    | consumed r₀ bound now hr₀ =>
      have hap := (consumable_state hr₀).1
      obtain ⟨d, op, ro, ch, n, ans, h₁, h₂, h₃, h₄, h₅, h₆, h₇, hevent⟩ :=
        (ih hx (by rw [hap]; rfl)).mono hgrow
      refine ⟨d, op, ro, ch, n, ans, h₁, h₂, h₃, h₄, h₅, h₆, .inr ⟨rfl, ?_⟩, hevent⟩
      rw [hap] at h₇
      cases d with
      | allowOnce => rfl
      | deny => rcases h₇ with h₇ | ⟨h₇, -⟩ <;> cases h₇
      | answerQuestions => rcases h₇ with h₇ | ⟨h₇, -⟩ <;> cases h₇

end Runs

end SubagentBridge.OperatorBoundary
