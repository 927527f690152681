import SubagentBridge.Approval.OperatorBoundary
import SubagentBridge.Library.Fallible

/-! What every interleaving of calls on the boundary instances keeps: a nonce names one
request, rows move along the permitted transitions, and an approval is consumed once. -/

namespace SubagentBridge.OperatorBoundary

open Library

section Rows

variable {τ : Type}

/-- What a request is about; nothing in it changes after the request was made. -/
structure Context (τ : Type) where
  actionId : String
  sessionId : String
  taskId : String
  commandJson : String
  workspacePath : String
  nonce : String
  createdAt : τ
  expiresAt : τ

def Row.context (r : Row τ) : Context τ :=
  ⟨r.actionId, r.sessionId, r.taskId, r.commandJson, r.workspacePath, r.nonce, r.createdAt,
    r.expiresAt⟩

def OperatorApprovalRequest.context (req : OperatorApprovalRequest τ) : Context τ :=
  ⟨req.actionId, req.sessionId, req.taskId, dumpList req.command, req.workspacePath, req.nonce,
    req.createdAt, req.expiresAt⟩

variable {r : Row τ} {req expected : OperatorApprovalRequest τ}

@[simp] theorem context_toRow (req : OperatorApprovalRequest τ) : req.toRow.context = req.context :=
  rfl

@[simp] theorem context_assign (r : Row τ) (req : OperatorApprovalRequest τ) :
    (r.assign req).context = r.context := rfl

theorem loadList_dumpList (xs : List String) : loadList (dumpList xs) = some xs := by
  rw [loadList, dumpList, loads_dumps (wf_ofStrings xs)]
  exact toStrings_ofStrings xs

theorem assign_toRow (h : req.context = expected.context) :
    expected.toRow.assign req = req.toRow := by
  simp only [OperatorApprovalRequest.context, Context.mk.injEq] at h
  obtain ⟨h₁, h₂, h₃, h₄, h₅, h₆, h₇, h₈⟩ := h
  simp only [Row.assign, OperatorApprovalRequest.toRow, h₁, h₂, h₃, h₄, h₅, h₆, h₇, h₈]

theorem value_getD_injective {d d' : Option OperatorDecision}
    (h : (d.map (·.value)).getD "" = (d'.map (·.value)).getD "") : d = d' := by
  rcases d with _ | _ | _ | _ <;> rcases d' with _ | _ | _ | _ <;>
    first | rfl | exact absurd h (by decide)

theorem nonce_of_matches (h : r.matchesSnapshot expected) : r.nonce = expected.nonce := by
  simp only [Row.matchesSnapshot, Bool.and_eq_true, decide_eq_true_eq] at h
  tauto

theorem eq_of_matches (h : req.toRow.matchesSnapshot expected)
    (hc : req.context = expected.context) : req.toRow = expected.toRow := by
  simp only [Row.matchesSnapshot, Bool.and_eq_true, decide_eq_true_eq] at h
  simp only [OperatorApprovalRequest.toRow, Option.getD_some] at h
  obtain ⟨⟨⟨⟨⟨⟨⟨⟨⟨⟨-, hstate⟩, hdec⟩, hid⟩, hrole⟩, hchan⟩, hnotes⟩, hq⟩, ha⟩, hov⟩, hab⟩ := h
  rw [← assign_toRow hc.symm]
  simp only [Row.assign, OperatorApprovalRequest.toRow, hstate, value_getD_injective hdec, hid,
    hrole, hchan, hnotes, hq, ha, hov, hab]

theorem context_load [LinearOrder τ] {now : τ} {m : OperatorApprovalRequest τ}
    (h : m.toRow.load now = .ok req) : req.context = m.context := by
  rw [Row.load, bind_ok] at h
  obtain ⟨command, hcommand, h⟩ := h
  rw [bind_ok] at h
  obtain ⟨questions, -, h⟩ := h
  rw [bind_ok] at h
  obtain ⟨answers, -, h⟩ := h
  rw [show m.toRow.commandJson = dumpList m.command from rfl, loadList_dumpList] at hcommand
  obtain rfl := Except.ok.inj hcommand
  obtain rfl := Except.ok.inj h
  rfl

end Rows

/-! ## The discipline of a call -/

section Discipline

variable {τ : Type} [LinearOrder τ]

abbrev History (τ : Type) := List (Event (sig τ) Error)

def Shows : (o : Op τ) → Except Error o.Ret → OperatorApprovalRequest τ → Prop
  | .getRequest _ _, .ok found, req => found = some req
  | .allRequests _, .ok reqs, req => req ∈ reqs
  | .putRequest _ put, .ok _, req => put = req
  | .selectRows, .ok rows, req => ∃ r ∈ rows, ∃ now, r.load now = .ok req
  | _, _, _ => False

def Seen (h : History τ) (req : OperatorApprovalRequest τ) : Prop := ∃ e ∈ h, Shows e.op e.ans req

def Drawn (h : History τ) (nonce : String) : Prop := ⟨.tokenHex, .ok nonce⟩ ∈ h

def Born (h : History τ) (nonce : String) : Prop :=
  ∃ self req, ⟨.putRequest self req, .ok ()⟩ ∈ h ∧ req.nonce = nonce

variable [NatCast τ] (E : Env τ)

/-- The call resolves `actionId`, on the snapshot `req`, for an authenticated operator who
allows it once. -/
def Accepted (q : Request τ) (h : History τ) (req : OperatorApprovalRequest τ) : Prop :=
  ∃ self actionId operator notes answers,
    q = .resolveByOperator self actionId .allowOnce operator notes answers ∧
    ⟨.verifyOperator self operator, .ok true⟩ ∈ h ∧ ⟨.getRequest self actionId, .ok (some req)⟩ ∈ h

/-- What `consume_for_execution` has checked before it updates the row. -/
structure Vetted (boundary : Nat) (actionId sessionId taskId : String) (command : List String)
    (workspacePath : String) (h : History τ) (req : OperatorApprovalRequest τ)
    (now : τ) : Prop where
  time : h[0]? = some ⟨.now, .ok now⟩
  snapshot : ⟨.getRequest boundary actionId, .ok (some req)⟩ ∈ h
  session : req.sessionId = sessionId
  task : req.taskId = taskId
  digest : ∃ stored passed, ⟨.resolvePath req.workspacePath, .ok stored⟩ ∈ h ∧
    ⟨.resolvePath workspacePath, .ok passed⟩ ∈ h ∧
    E.sha256 (commandText req.command stored req.taskId) =
      E.sha256 (commandText command passed taskId)

def Allowed (q : Request τ) (h : History τ) : Op τ → Prop
  | .putRequest _ req => (∃ seen, Seen h seen ∧ seen.context = req.context) ∨
      Drawn h req.nonce ∧ ¬ Born h req.nonce
  | .insertRow req => Seen h req ∧ req.state = .blocked
  | .updateRow req expected => Seen h expected ∧ req.context = expected.context ∧
      req.state ∈ permitted expected.state ∧ (req.state = .approved → Accepted q h expected)
  | .consumeRow actionId nonce _ now => ∃ self action session task command path ttl req,
      q = .consumeForExecution self action session task command path ttl ∧
      Vetted E self action session task command path h req now ∧
      actionId = req.actionId ∧ nonce = req.nonce
  | _ => True

abbrev protocol : Protocol (sig τ) Error := .ofHistory (Allowed E) fun _ _ => True

variable {E} {q : Request τ} {h h' : History τ} {self : Nat} {now : τ}
variable {req : OperatorApprovalRequest τ}

omit [NatCast τ] in
theorem seen_of_get {actionId : String}
    (hs : ⟨.getRequest self actionId, .ok (some req)⟩ ∈ h) : Seen h req := ⟨_, hs, rfl⟩

omit [NatCast τ] in
theorem Seen.mono (hs : Seen h req) (hp : h <+: h') : Seen h' req :=
  let ⟨e, he, hr⟩ := hs
  ⟨e, hp.subset he, hr⟩

def GoesOn {α : Type} (q : Request τ) (h : History τ) (m : (protocol E).Mode)
    (_ : Except Error α) : Prop :=
  m.1 = q ∧ h <+: m.2

theorem GoesOn.of_initial {α : Type} {m : (protocol E).Mode} {r : Except Error α}
    (hm : GoesOn q h' m r) (hp : h <+: h') : GoesOn q h m r := ⟨hm.1, hp.trans hm.2⟩

variable {α β : Type} {Q : (protocol E).Mode → Except Error β → Prop}

theorem follows_perform (o : Op τ) {f : o.Ret → Call τ β} (ha : Allowed E q h o)
    (hok : ∀ a, (f a).Follows (protocol E) Q (q, h ++ [⟨o, .ok a⟩]))
    (herr : ∀ e, Q (q, h ++ [⟨o, .error e⟩]) (.error e)) :
    ((perform o).bind f).Follows (protocol E) Q (q, h) :=
  (Proc.follows_op_bind ..).mpr ⟨ha, fun a _ => hok a, fun e _ => herr e⟩

theorem follows_last (o : Op τ) {Q : (protocol E).Mode → Except Error o.Ret → Prop}
    (ha : Allowed E q h o) (hr : ∀ r, Q (q, h ++ [⟨o, r⟩]) r) :
    (perform o).Follows (protocol E) Q (q, h) := by
  refine ⟨ha, ?_⟩
  rintro (e | a) -
  · exact hr (.error e)
  · exact hr (.ok a)

theorem rehydrateRow_follows {r : Row τ} (hr : ∀ req, r.load now = .ok req → Seen h req) :
    (rehydrateRow self now r).Follows (protocol E) (GoesOn q h) (q, h) := by
  simp only [rehydrateRow, Proc.bind_eq]
  cases hl : r.load now with
  | error e => exact ⟨rfl, List.prefix_rfl⟩
  | ok req =>
    refine follows_perform _ (.inl ⟨req, hr req hl, rfl⟩) (fun _ => ?_) fun e => ⟨rfl, by simp⟩
    split
    · exact follows_last _ trivial fun r => ⟨rfl, by simp⟩
    · exact ⟨rfl, by simp⟩

theorem rehydrateFromDisk_follows :
    (rehydrateFromDisk self).Follows (protocol E) (GoesOn q h) (q, h) := by
  simp only [rehydrateFromDisk, Proc.bind_eq]
  refine follows_perform _ trivial (fun now => ?_) fun e => ⟨rfl, by simp⟩
  refine follows_perform _ trivial (fun rows => ?_) fun e => ⟨rfl, by simp⟩
  have hstart : h <+: h ++ [⟨.now, .ok now⟩] ++ [⟨.selectRows, .ok rows⟩] := by simp
  refine Proc.Follows.bind (M := GoesOn q h) ?_ (fun m _ hm => hm) fun m e hm => hm
  refine Proc.follows_forEach (I := fun rs m => rs ⊆ rows ∧ GoesOn q
    (h ++ [⟨.now, .ok now⟩] ++ [⟨.selectRows, .ok rows⟩]) m (.ok ())) _ _
    ⟨List.Subset.refl _, rfl, List.prefix_rfl⟩ ?_ fun m hm => hm.2.of_initial hstart
  rintro r rs ⟨q', h'⟩ ⟨hrs, rfl, hp⟩
  refine (rehydrateRow_follows (fun req hl => ?_)).mono ?_
  · exact ⟨⟨.selectRows, .ok rows⟩, hp.subset (by simp), r, hrs (by simp), now, hl⟩
  · rintro m (e | u) hm
    · exact hm.of_initial (hstart.trans hp)
    · exact ⟨fun r hr => hrs (List.mem_cons_of_mem _ hr), hm.of_initial hp⟩

theorem swapRequest_follows {req expected : OperatorApprovalRequest τ} (hs : Seen h expected)
    (ha : req.state = .approved → Accepted q h expected) :
    (swapRequest req expected).Follows (protocol E) (fun m r => GoesOn q h m r ∧
      ∀ u, r = .ok u → ⟨.updateRow req expected, .ok (1 : Nat)⟩ ∈ m.2) (q, h) := by
  simp only [swapRequest, Proc.bind_eq]
  split
  next => exact ⟨⟨rfl, List.prefix_rfl⟩, fun u hu => by cases hu⟩
  next hc =>
    simp only [not_or, ne_eq, not_not] at hc
    obtain ⟨h₁, h₂, h₃, h₄, h₅, h₆, h₇, h₈⟩ := hc
    split
    next => exact ⟨⟨rfl, List.prefix_rfl⟩, fun u hu => by cases hu⟩
    next hp =>
      have hctx : req.context = expected.context := by
        simp only [OperatorApprovalRequest.context, h₁, h₂, h₃, h₄, h₅, h₆, h₇, h₈]
      refine follows_perform _ ⟨hs, hctx, not_not.mp hp, ha⟩ (fun n => ?_) fun e =>
        ⟨⟨rfl, by simp⟩, fun u hu => by cases hu⟩
      by_cases hn : n = (1 : Nat)
      · subst hn
        exact ⟨⟨rfl, by simp⟩, fun u _ => by simp⟩
      · rw [Proc.require, if_neg hn]
        exact ⟨⟨rfl, by simp⟩, fun u hu => by cases hu⟩

theorem expireIfDue_follows (hs : Seen h req) :
    (expireIfDue self req now).Follows (protocol E) (GoesOn q h) (q, h) := by
  rw [expireIfDue]
  split
  next => exact ⟨rfl, List.prefix_rfl⟩
  next =>
    simp only [persistRequest, Proc.bind_eq]
    have hswap : (swapRequest { req with state := .expired } req).Follows (protocol E) _ (q, h) :=
      swapRequest_follows hs (by rintro ⟨⟩)
    refine Proc.Follows.bind (M := GoesOn q h) ?_ ?_ fun m e hm => hm
    · refine Proc.Follows.tryCatch (M := GoesOn q h) ?_ (fun m b hm => hm) ?_
      · exact hswap.bind (fun m u hm => hm.1) fun m e hm => hm.1
      · rintro ⟨q, h'⟩ (_ | _ | _ | _ | _ | _ | _ | _) hm <;> exact hm
    · rintro ⟨q', h'⟩ persisted ⟨rfl, hp⟩
      split
      · refine follows_perform _ (.inl ⟨req, hs.mono hp, rfl⟩) (fun _ => ?_) fun e => ?_
        · exact ⟨rfl, hp.trans (by simp)⟩
        · exact ⟨rfl, hp.trans (by simp)⟩
      · refine rehydrateFromDisk_follows.bind ?_ fun m e hm => hm.of_initial hp
        rintro ⟨q'', h''⟩ n ⟨rfl, hp'⟩
        refine follows_perform _ trivial (fun _ => ?_) fun e => ?_
        · exact ⟨rfl, (hp.trans hp').trans (by simp)⟩
        · exact ⟨rfl, (hp.trans hp').trans (by simp)⟩

theorem appendEvent_follows (key kind : String)
    (payload : List (Option String × AuditLedger.Value τ)) :
    (appendEvent E self key kind payload).Follows (protocol E) (GoesOn q h) (q, h) := by
  rw [appendEvent]
  split
  · exact ⟨rfl, List.prefix_rfl⟩
  · exact follows_last _ trivial fun r => ⟨rfl, by simp⟩

theorem canonicalCommandDigest_follows (command : List String) (path taskId : String) :
    (canonicalCommandDigest E command path taskId).Follows (protocol E)
      (fun m r => ∀ digest, r = .ok digest → ∃ p, m = (q, h ++ [⟨.resolvePath path, .ok p⟩]) ∧
        digest = E.sha256 (commandText command p taskId)) (q, h) := by
  refine follows_perform _ trivial (fun p digest hd => ?_) fun e digest hd => by cases hd
  exact ⟨p, rfl, (Except.ok.inj hd).symm⟩

theorem insertRequest_follows (hs : Seen h req) (hb : req.state = .blocked) :
    (insertRequest req).Follows (protocol E) (fun _ _ => True) (q, h) := by
  refine Proc.Follows.tryCatch (M := fun _ _ => True) ?_ (fun _ _ _ => trivial) ?_
  · exact follows_last _ ⟨hs, hb⟩ fun _ => trivial
  · rintro m (_ | _ | _ | _ | _ | _ | _ | _) - <;> trivial

theorem createRequest_follows [Add τ] (sessionId taskId : String) (command : List String)
    (workspacePath : String) (questions : List String) (ttlSeconds : Option τ) :
    (createRequest E self sessionId taskId command workspacePath questions ttlSeconds).Follows
      (protocol E) (fun _ _ => True) (q, []) := by
  simp only [createRequest, Proc.bind_eq]
  split
  · trivial
  split
  · trivial
  refine follows_perform _ trivial (fun now => ?_) fun _ => trivial
  refine follows_perform _ trivial (fun nonce => ?_) fun _ => trivial
  refine (canonicalCommandDigest_follows ..).bind ?_ fun _ _ _ => trivial
  rintro m digest hd
  obtain ⟨_, rfl, -⟩ := hd digest rfl
  refine follows_perform _ trivial (fun path => ?_) fun _ => trivial
  refine follows_perform _ (.inr ⟨?_, ?_⟩) (fun _ => ?_) fun _ => trivial
  · simp [Drawn]
  · rintro ⟨s, r, hr, -⟩
    simp at hr
  · refine (insertRequest_follows ?_ rfl).bind (fun m _ _ => ?_) fun _ _ _ => trivial
    · exact ⟨⟨.putRequest self _, .ok ()⟩, by simp, rfl⟩
    · exact (appendEvent_follows ..).bind (fun _ _ _ => trivial) fun _ _ _ => trivial

theorem demand_follows {verdict : Call τ Bool} {failed refused : String}
    {m : (protocol E).Mode} {M : (protocol E).Mode → Except Error Bool → Prop}
    {Q : (protocol E).Mode → Except Error Unit → Prop} (hv : verdict.Follows (protocol E) M m)
    (hok : ∀ m, M m (.ok true) → Q m (.ok ())) (herr : ∀ m r e, M m r → Q m (.error e)) :
    (demand verdict failed refused).Follows (protocol E) Q m := by
  refine Proc.Follows.bind (M := fun m r => M m r ∨ ∃ e', r = .error e' ∧ ∃ r, M m r) ?_ ?_ ?_
  · refine hv.tryCatch (fun m b hm => .inl hm) fun m e hm => ?_
    exact .inr ⟨_, rfl, _, hm⟩
  · rintro m verified (hm | ⟨e, he, -⟩)
    · cases verified
      · exact herr _ _ _ hm
      · exact hok _ hm
    · cases he
  · rintro m e (hm | ⟨e', -, r, hm⟩)
    · exact herr _ _ _ hm
    · exact herr _ _ _ hm

theorem demandProof_follows (decision : OperatorDecision) (operator : OperatorIdentity) :
    (demandProof E self req decision operator).Follows (protocol E) (GoesOn q h) (q, h) := by
  rw [demandProof]
  split
  · refine demand_follows (M := GoesOn q h) ?_ (fun m hm => hm) fun m r e hm => hm
    exact follows_last _ trivial fun r => ⟨rfl, by simp⟩
  · exact ⟨rfl, List.prefix_rfl⟩

section Resolve

variable {actionId notes : String} {decision : OperatorDecision} {operator : OperatorIdentity}
variable {answers : Dict String String}

/-- What a resolution that returned `m` leaves in the history of its call. -/
def Resolved (E : Env τ) (self : Nat) (actionId : String) (decision : OperatorDecision)
    (operator : OperatorIdentity) (notes : String) (answers : Dict String String) (h : History τ)
    (m : OperatorApprovalRequest τ) : Prop :=
  ∃ req, ⟨.getRequest self actionId, .ok (some req)⟩ ∈ h ∧
    m = req.resolved (E.conf self).decisionVerifier decision operator notes answers ∧
    ⟨.updateRow m req, .ok (1 : Nat)⟩ ∈ h

theorem resolveRequest_follows
    (hs : ⟨.getRequest self actionId, .ok (some req)⟩ ∈ h)
    (ha : decision = .allowOnce → ∀ h', h <+: h' → Accepted q h' req) :
    (resolveRequest E self actionId req decision operator notes answers).Follows (protocol E)
      (fun m r => ∀ u, r = .ok u →
        Resolved E self actionId decision operator notes answers m.2 u) (q, h) := by
  simp only [resolveRequest, persistRequest, Proc.bind_eq]
  refine (demandProof_follows ..).bind ?_ fun _ _ _ u hu => by cases hu
  rintro ⟨q, h₁⟩ _ ⟨rfl, hp₁⟩
  refine (appendEvent_follows ..).bind ?_ fun _ _ _ u hu => by cases hu
  rintro ⟨q, h₂⟩ _ ⟨rfl, hp₂⟩
  have hp := hp₁.trans hp₂
  have hseen : Seen h₂ req := ⟨_, hp.subset hs, rfl⟩
  refine (swapRequest_follows hseen ?_).bind ?_ fun _ _ _ u hu => by cases hu
  · intro hst
    refine ha ?_ _ hp
    cases decision with
    | allowOnce => rfl
    | deny => cases hst
    | answerQuestions => cases hst
  · rintro ⟨q, h₃⟩ u ⟨⟨rfl, hp₃⟩, hupd⟩
    refine follows_perform _ (.inl ⟨req, hseen.mono hp₃, rfl⟩)
      (fun _ => ?_) fun e u hu => by cases hu
    rintro m ⟨⟩
    exact ⟨req, by simp [(hp.trans hp₃).subset hs], rfl, by simp [hupd u rfl]⟩

theorem resolveByOperator_follows
    (hq : q = .resolveByOperator self actionId decision operator notes answers) :
    (resolveByOperator E self actionId decision operator notes answers).Follows (protocol E)
      (fun m r => ∀ u, r = .ok u →
        Resolved E self actionId decision operator notes answers m.2 u) (q, []) := by
  simp only [resolveByOperator, Proc.bind_eq]
  refine (Proc.follows_require_bind ..).mpr ⟨fun _ => ?_, fun _ u hu => by cases hu⟩
  refine Proc.Follows.bind (M := fun m r => m.1 = q ∧
    (r = .ok () → m.2 = [⟨.verifyOperator self operator, .ok true⟩])) ?_ ?_
      fun _ _ _ u hu => by cases hu
  · refine demand_follows (M := fun m r => m = (q, [⟨.verifyOperator self operator, r⟩])) ?_ ?_ ?_
    · exact follows_last _ trivial fun r => rfl
    · rintro _ rfl
      exact ⟨rfl, fun _ => rfl⟩
    · rintro _ r e rfl
      exact ⟨rfl, fun he => by cases he⟩
  rintro ⟨q', h⟩ _ ⟨rfl, hv⟩
  obtain rfl := hv rfl
  refine (Proc.follows_require_bind ..).mpr ⟨fun _ => ?_, fun _ u hu => by cases hu⟩
  refine follows_perform _ trivial (fun now => ?_) fun e u hu => by cases hu
  refine follows_perform _ trivial (fun found => ?_) fun e u hu => by cases hu
  cases found with
  | none => exact fun u hu => by cases hu
  | some req =>
    dsimp only
    split
    · refine (expireIfDue_follows ?_).bind
        (fun _ _ _ u hu => by cases hu) fun _ _ _ u hu => by cases hu
      exact ⟨⟨.getRequest self actionId, .ok (some req)⟩, by simp, rfl⟩
    split
    · exact fun u hu => by cases hu
    refine follows_perform _ trivial (fun used => ?_) fun e u hu => by cases hu
    refine (Proc.follows_require_bind ..).mpr ⟨fun _ => ?_, fun _ u hu => by cases hu⟩
    refine resolveRequest_follows (by simp) fun hd h' hp => ?_
    subst hd
    exact ⟨self, actionId, operator, notes, answers, hq, hp.subset (by simp), hp.subset (by simp)⟩

end Resolve

section Consume

variable {actionId sessionId taskId workspacePath : String} {command : List String} {ttl : τ}

def Consumed (h : History τ) : Prop :=
  ∃ actionId nonce bound now, ⟨.consumeRow actionId nonce bound now, .ok (1 : Nat)⟩ ∈ h

def Granted (m : (protocol E).Mode) (r : Except Error (Verdict τ)) : Prop :=
  ∀ reason ticket, r = .ok (true, reason, ticket) → Consumed m.2

theorem granted_denied (m : (protocol E).Mode) (reason : String) :
    (denied reason).Follows (protocol E) Granted m := by
  rintro _ _ ⟨⟩

theorem issueTicket_follows {digest : String} {expiry : τ} (hs : Seen h req) (hc : Consumed h) :
    (issueTicket E self req actionId sessionId taskId digest expiry).Follows (protocol E)
      Granted (q, h) := by
  obtain ⟨a, n, b, t, hc⟩ := hc
  simp only [issueTicket, Proc.bind_eq]
  refine follows_perform _ (.inl ⟨req, hs, rfl⟩) (fun _ => ?_) fun e _ _ he => by cases he
  refine follows_perform _ trivial (fun _ => ?_) fun e _ _ he => by cases he
  refine (appendEvent_follows ..).bind ?_ fun _ _ _ _ _ he => by cases he
  rintro ⟨q, h'⟩ _ ⟨rfl, hp⟩ _ _ -
  exact ⟨a, n, b, t, hp.subset (by simp [hc])⟩

theorem consumeRow_follows
    (hq : q = .consumeForExecution self actionId sessionId taskId command workspacePath ttl)
    (hv : Vetted E self actionId sessionId taskId command workspacePath h req now) :
    (consumeRow E self req now).Follows (protocol E)
      (fun m r => GoesOn q h m r ∧ (r = .ok (some 1) → Consumed m.2)) (q, h) := by
  refine Proc.Follows.tryCatch (M := fun m r => GoesOn q h m r ∧ (r = .ok (some 1) → Consumed m.2))
    ?_ (fun m b hm => hm) fun m e hm => ⟨hm.1, fun he => by cases he⟩
  refine follows_perform _ ⟨_, _, _, _, _, _, _, _, hq, hv, rfl, rfl⟩ (fun n => ?_) fun e =>
    ⟨⟨rfl, by simp⟩, fun he => by cases he⟩
  refine ⟨⟨rfl, by simp⟩, fun hn => ?_⟩
  obtain rfl := Option.some.inj (Except.ok.inj hn)
  exact ⟨_, _, _, _, List.mem_append_right _ (List.mem_singleton.mpr rfl)⟩

variable [Add τ]

theorem consumeApproved_follows
    (hq : q = .consumeForExecution self actionId sessionId taskId command workspacePath ttl)
    (ht : h[0]? = some ⟨.now, .ok now⟩)
    (hs : ⟨.getRequest self actionId, .ok (some req)⟩ ∈ h) :
    (consumeApproved E self req actionId sessionId taskId command workspacePath ttl now).Follows
      (protocol E) Granted (q, h) := by
  simp only [consumeApproved, Proc.bind_eq]
  refine follows_perform _ trivial (fun used => ?_) fun e _ _ he => by cases he
  split
  · exact granted_denied _ _
  split
  · exact granted_denied _ _
  next hsession =>
    split
    · exact granted_denied _ _
    next htask =>
      refine (canonicalCommandDigest_follows ..).bind ?_ fun m e _ _ _ he => by cases he
      intro m expected hexpected
      obtain ⟨stored, rfl, rfl⟩ := hexpected expected rfl
      refine (canonicalCommandDigest_follows ..).bind ?_ fun m e _ _ _ he => by cases he
      intro m actual hactual
      obtain ⟨passed, rfl, rfl⟩ := hactual actual rfl
      split
      · exact granted_denied _ _
      next hdigest =>
        have hlt := (List.getElem?_eq_some_iff.mp ht).1
        have hv : Vetted E self actionId sessionId taskId command workspacePath
            (h ++ [⟨.nonceConsumed self req.nonce, .ok used⟩] ++
              [⟨.resolvePath req.workspacePath, .ok stored⟩] ++
              [⟨.resolvePath workspacePath, .ok passed⟩]) req now :=
          { time := by simpa [List.getElem?_append, hlt] using ht
            snapshot := by simp [hs]
            session := not_not.mp hsession
            task := not_not.mp htask
            digest := ⟨stored, passed, by simp, by simp, not_not.mp hdigest⟩ }
        refine (consumeRow_follows hq hv).bind ?_ fun m e _ _ _ he => by cases he
        rintro ⟨q', h'⟩ n ⟨⟨rfl, hp⟩, hn⟩
        split
        · exact granted_denied _ _
        next rowcount =>
          split
          · exact granted_denied _ _
          next hone =>
            obtain rfl := not_not.mp hone
            exact issueTicket_follows (seen_of_get (hp.subset hv.snapshot)) (hn rfl)

theorem consumeForExecution_follows
    (hq : q = .consumeForExecution self actionId sessionId taskId command workspacePath ttl) :
    (consumeForExecution E self actionId sessionId taskId command workspacePath ttl).Follows
      (protocol E) Granted (q, []) := by
  simp only [consumeForExecution, Proc.bind_eq]
  split
  · exact granted_denied _ _
  refine follows_perform _ trivial (fun now => ?_) fun e _ _ he => by cases he
  refine follows_perform _ trivial (fun found => ?_) fun e _ _ he => by cases he
  cases found with
  | none => exact granted_denied _ _
  | some req =>
    have hs : ⟨.getRequest self actionId, .ok (some req)⟩ ∈ ([] : History τ) ++
      [⟨.now, .ok now⟩] ++ [⟨.getRequest self actionId, .ok (some req)⟩] := by simp
    dsimp only
    split
    · exact (expireIfDue_follows (seen_of_get hs)).bind (fun _ _ _ => granted_denied _ _)
        fun _ _ _ _ _ he => by cases he
    repeat' split
    all_goals first | exact granted_denied _ _ | exact consumeApproved_follows hq rfl hs

end Consume

theorem getRequest_follows {actionId : String} :
    (getRequest self actionId).Follows (protocol E) (fun _ _ => True) (q, []) := by
  simp only [getRequest, Proc.bind_eq]
  refine follows_perform _ trivial (fun found => ?_) fun _ => trivial
  cases found with
  | none => trivial
  | some req =>
    refine follows_perform _ trivial (fun now => ?_) fun _ => trivial
    have hs : Seen ([] ++ [⟨.getRequest self actionId, .ok (some req)⟩] ++ [⟨.now, .ok now⟩]) req :=
      seen_of_get (List.mem_append_left _ (List.mem_singleton.mpr rfl))
    exact (expireIfDue_follows hs).bind (fun _ _ _ => trivial) fun _ _ _ => trivial

theorem listPendingFrom_follows {reqs : List (OperatorApprovalRequest τ)}
    (hs : ∀ req ∈ reqs, Seen h req) :
    (listPendingFrom self now reqs).Follows (protocol E) (fun _ _ => True) (q, h) := by
  induction reqs generalizing h with
  | nil => trivial
  | cons req reqs ih =>
    simp only [listPendingFrom, Proc.bind_eq]
    refine (expireIfDue_follows (hs req (by simp))).bind ?_ fun _ _ _ => trivial
    rintro ⟨q, h'⟩ current ⟨rfl, hp⟩
    refine (ih fun req hr => (hs req (by simp [hr])).mono hp).bind ?_ fun _ _ _ => trivial
    exact fun _ _ _ => trivial

theorem listPending_follows :
    (listPending self).Follows (protocol E) (fun _ _ => True) (q, []) := by
  simp only [listPending, Proc.bind_eq]
  refine follows_perform _ trivial (fun now => ?_) fun _ => trivial
  refine follows_perform _ trivial (fun reqs => ?_) fun _ => trivial
  refine listPendingFrom_follows fun req hr => ?_
  exact ⟨⟨.allRequests self, .ok reqs⟩, by simp, hr⟩

variable (E) in
def Outcome : Request τ → (protocol E).Mode → Except Error (Response τ) → Prop
  | .resolveByOperator self actionId decision operator notes answers, m, .ok (.request req) =>
    Resolved E self actionId decision operator notes answers m.2 req
  | .consumeForExecution _ _ _ _ _ _ _, m, .ok (.verdict (true, _, _)) => Consumed m.2
  | _, _, _ => True

theorem body_follows [Add τ] (q : Request τ) :
    (body E q).Follows (protocol E) (Outcome E q) (q, []) := by
  cases q with
  | createRequest self sessionId taskId command workspacePath questions ttlSeconds =>
    exact (createRequest_follows ..).bind (fun _ _ _ => trivial) fun _ _ _ => trivial
  | resolveByOperator self actionId decision operator notes answers =>
    exact (resolveByOperator_follows rfl).bind (fun m req h => h req rfl) fun _ _ _ => trivial
  | consumeForExecution self actionId sessionId taskId command workspacePath ticketTtlSeconds =>
    refine (consumeForExecution_follows rfl).bind ?_ fun _ _ _ => trivial
    rintro m ⟨granted, reason, ticket⟩ h
    cases granted with
    | false => trivial
    | true => exact h _ _ rfl
  | rehydrateFromDisk self =>
    exact rehydrateFromDisk_follows.bind (fun _ _ _ => trivial) fun _ _ _ => trivial
  | getRequest self actionId =>
    exact getRequest_follows.bind (fun _ _ _ => trivial) fun _ _ _ => trivial
  | listPending self =>
    exact listPending_follows.bind (fun _ _ _ => trivial) fun _ _ _ => trivial

end Discipline

end SubagentBridge.OperatorBoundary
