import SubagentBridge.Approval.DecisionProofs
import SubagentBridge.Approval.VerifiedOperatorAuthority

/-! A ticket of the verified authority goes back to a proof: in the run, a decision verifier
accepted the action that the ticket is for. -/

namespace SubagentBridge.VerifiedOperatorAuthority

open Library OperatorBoundary

/-! ## The discipline of a call -/

section Discipline

variable {τ : Type} [LinearOrder τ] [NatCast τ] {E : Env τ}

def Request.onBoundary : Request E → OperatorBoundary.Request τ
  | .boundary q => q
  | .requestCommandApproval authority workerId taskId command workspacePath =>
    .createRequest authority.boundary workerId taskId command workspacePath [] none
  | .isActionForContext authority action _ _ _ _ => .getRequest authority.boundary action.actionId
  | .approveByHuman authority actionId | .getAction authority actionId
  | .isActionConsumed authority actionId | .verifyAndConsume authority actionId =>
    .getRequest authority.boundary actionId
  | .issueExecutionTicket authority actionId workerId taskId command workspacePath _ ttlSeconds =>
    .consumeForExecution authority.boundary actionId workerId taskId command workspacePath
      ttlSeconds

/-- The call minted the ticket: it consumed a row, and the ticket says what it was asked. -/
def Mints [Add τ] : Request E → (OperatorBoundary.protocol E).Mode →
    Except Error (Response τ) → Prop
  | .issueExecutionTicket _ actionId workerId taskId command workspacePath sessionSecret ttlSeconds,
    m, .ok (.answer (_, _, some ticket)) => Consumed m.2 ∧ ∃ now, ⟨.now, .ok now⟩ ∈ m.2 ∧
      ticket = executionTicket E actionId workerId taskId
        (computeActionResource E command workspacePath taskId) sessionSecret (now + ttlSeconds)
  | _, _, _ => True

omit [LinearOrder τ] [NatCast τ] in
theorem isActionForContext_only {A : Op τ → Prop} (hA : ∀ path, A (.resolvePath path))
    (action : OperatorApprovalRequest τ) (workerId taskId : String) (command : List String)
    (workspacePath : String) :
    (isActionForContext action workerId taskId command workspacePath).Only A :=
  Proc.only_and (Proc.only_op_bind (hA _) fun _ => trivial)

variable {authority : VerifiedOperatorApprovalAuthority E} {actionId workerId taskId : String}
variable {command : List String} {workspacePath sessionSecret : String} {ttlSeconds : τ} [Add τ]

theorem issueExecutionTicket_follows :
    (issueExecutionTicket authority actionId workerId taskId command workspacePath sessionSecret
      ttlSeconds).Follows (OperatorBoundary.protocol E) (fun m r => Mints (.issueExecutionTicket
        authority actionId workerId taskId command workspacePath sessionSecret ttlSeconds) m
        (r.map .answer))
      (Request.onBoundary (.issueExecutionTicket authority actionId workerId taskId command
        workspacePath sessionSecret ttlSeconds), []) := by
  simp only [issueExecutionTicket, Proc.bind_eq]
  split
  · trivial
  split
  · trivial
  refine (consumeForExecution_follows rfl).bind ?_ fun _ _ _ => trivial
  rintro ⟨q, h⟩ ⟨allowed, reason, receipt⟩ hgranted
  dsimp only
  split
  next => trivial
  next hallowed =>
    obtain rfl : allowed = true := by simpa using fun ha => hallowed (.inl ha)
    obtain ⟨a, n, b, t, hcons⟩ := hgranted _ _ rfl
    refine follows_perform _ trivial (fun now => ?_) fun _ => trivial
    exact ⟨⟨a, n, b, t, List.mem_append_left _ hcons⟩, now,
      List.mem_append_right _ (List.mem_singleton.mpr rfl), rfl⟩

theorem body_follows (q : Request E) :
    (body E q).Follows (OperatorBoundary.protocol E) (Mints q) (q.onBoundary, []) := by
  cases q with
  | boundary q =>
    exact (OperatorBoundary.body_follows q).bind (fun _ _ _ => trivial) fun _ _ _ => trivial
  | requestCommandApproval =>
    exact (createRequest_follows ..).bind (fun _ _ _ => trivial) fun _ _ _ => trivial
  | approveByHuman => trivial
  | getAction authority actionId =>
    refine Proc.Follows.bind (M := fun _ _ => True) ?_ (fun _ _ _ => trivial) fun _ _ _ => trivial
    rw [getAction]
    split
    · trivial
    · exact getRequest_follows
  | isActionForContext authority action workerId taskId command workspacePath =>
    have honly := isActionForContext_only (A := fun o => ∃ path, o = .resolvePath path)
      (fun path => ⟨path, rfl⟩) action workerId taskId command workspacePath
    refine (honly.follows_history ?_).bind (fun _ _ _ => trivial) fun _ _ _ => trivial
    rintro h' - o ⟨path, rfl⟩
    trivial
  | isActionConsumed authority actionId =>
    refine Proc.Follows.bind (M := fun _ _ => True) ?_ (fun _ _ _ => trivial) fun _ _ _ => trivial
    exact getRequest_follows.bind (fun _ _ _ => trivial) fun _ _ _ => trivial
  | verifyAndConsume => trivial
  | issueExecutionTicket =>
    exact issueExecutionTicket_follows.bind (fun _ _ h => h) fun _ _ _ => trivial

theorem body_proven (q : Request E) : Keeps (Proven E) (body E q) q.onBoundary [] := by
  have hB := proven_of_harmless (E := E)
  cases q with
  | boundary q => exact keeps_bind (OperatorBoundary.body_proven q) fun _ _ => trivial
  | requestCommandApproval =>
    exact harmless_bind hB (createRequest_harmless ..) fun _ _ _ => trivial
  | approveByHuman => trivial
  | getAction authority actionId =>
    refine harmless_bind hB ?_ fun _ _ _ => trivial
    rw [getAction]
    split
    · trivial
    · exact (harmless_of_silent getRequest_silent)
  | isActionForContext =>
    exact harmless_bind hB (isActionForContext_only (fun _ => trivial) ..) fun _ _ _ => trivial
  | isActionConsumed authority actionId =>
    exact harmless_bind hB ((harmless_of_silent getRequest_silent).bind fun _ =>
      trivial) fun _ _ _ => trivial
  | verifyAndConsume => trivial
  | issueExecutionTicket authority actionId workerId taskId command workspacePath secret ttl =>
    refine keeps_bind ?_ fun _ _ => trivial
    simp only [issueExecutionTicket, Proc.bind_eq]
    split
    · trivial
    split
    · trivial
    refine keeps_bind (consume_keeps fun _ _ => proven_of_consuming) ?_
    rintro ⟨q, h⟩ ⟨allowed, reason, receipt⟩
    dsimp only
    split
    · trivial
    · exact harmless_bind hB ((Proc.only_op _).mpr trivial) fun _ _ _ => trivial

end Discipline

/-! ## Runs -/

section Runs

variable {τ : Type} [LinearOrder τ] [NatCast τ] [Add τ] [FloatText τ] (E : Env τ)

abbrev Calls := (machine E).Config

abbrev Step := Machine.step (M := machine E)

abbrev start (table : LegacyTable τ) : Calls E := (machine E).initial table.state

abbrev discipline : Protocol (sig τ) Error :=
  .ofHistory (fun q h o => Allowed E q h o ∧ Proven E q h o) fun _ _ => True

variable {E} {c c' : Calls E} {ls : List (machine E).Label} {i : Nat} {w : World τ}
variable {table : LegacyTable τ} {q : Request E} {o : Op τ} {h : History τ}
variable {k : Except Error o.Ret → Call τ (Response τ)}

abbrev records (c : Calls E) : List (OperatorBoundary.Request τ × History τ) :=
  c.modes (discipline E) fun q : Request E => (q.onBoundary, [])

omit [FloatText τ] in
theorem body_disciplined (q : Request E) :
    (body E q).Follows (discipline E) (fun m r => Mints q m r ∧ True) (q.onBoundary, []) :=
  (body_follows q).and_history (body_proven q)

omit [Add τ] [FloatText τ] in
theorem after_start (q : OperatorBoundary.Request τ) (h : History τ) :
    (discipline E).after (q, []) h = (q, h) := Protocol.after_ofHistory _ _ q [] h

theorem records_call {call : (machine E).Activity} (hc : c.calls[i]? = some call) :
    (records c)[i]? = some (call.request.onBoundary, call.hist) := by
  simp [Machine.Config.modes, hc, Machine.Activity.mode, after_start]

def birthsOf (rows : List (Row τ)) : List (Context τ) :=
  rows.filterMap fun r => (loadList r.commandJson).map fun command =>
    { r.context with commandJson := dumpList command }

omit [LinearOrder τ] [NatCast τ] [Add τ] [FloatText τ] in
theorem births_nonces (rows : List (Row τ)) :
    ((birthsOf rows).map (·.nonce)).Sublist (rows.map (·.nonce)) := by
  induction rows with
  | nil => exact .slnil
  | cons r rows ih =>
    rw [birthsOf, List.filterMap_cons, List.map_cons]
    cases loadList r.commandJson with
    | none => exact ih.cons _
    | some command => exact ih.cons_cons _

omit [NatCast τ] [Add τ] [FloatText τ] in
theorem traced_start (table : LegacyTable τ) : Traced (birthsOf table.rows) table.state [] where
  memory :=
    { nonces := (births_nonces _).nodup table.nonces
      minted ctx hctx := (births_nonces _).subset (List.mem_map_of_mem hctx)
      rows := by simp [State.forget]
      keys := by simp [State.forget]
      memory := by simp [State.forget, LegacyTable.state, initial]
      calls := by simp
      own := by simp }
  known r hr command hload :=
    List.mem_filterMap.mpr ⟨r, hr, by rw [hload, Option.map_some]⟩
  keys := table.keys
  proven r hr hb := by
    rw [table.unproven r hr] at hb
    cases hb

theorem acts_disciplined (hrun : Library.Run (Step E) (start E table) ls c)
    (hact : Machine.Acts c i w c' q o k h) :
    Allowed E q.onBoundary h o ∧ Proven E q.onBoundary h o := by
  have ha := hact.allowed (P := discipline E) (Q := fun q m r => Mints q m r ∧ True)
    body_disciplined (fun _ _ _ _ _ _ => trivial) hrun
  rwa [after_start] at ha

theorem traced_run (hrun : Library.Run (Step E) (start E table) ls c) :
    ∃ births, Traced births c.state (records c) := by
  refine Machine.modes_invariant (P := discipline E) (Q := fun q m r => Mints q m r ∧ True)
    (J := fun s ms => ∃ births, Traced births s ms) body_disciplined (fun _ _ _ _ _ _ => trivial)
    ⟨_, traced_start table⟩ ?_ ?_ hrun
  · rintro s ms q ⟨births, ht⟩
    exact ⟨births, ht.start _⟩
  · rintro c i w c' q o k h - hact ⟨births, ht⟩ ha
    simp only [after_start] at ha ⊢
    exact traced_exec ht (records_call hact.call) ha.1 ha.2 hact.possible

theorem minted_call (hrun : Library.Run (Step E) (start E table) ls c)
    {call : (machine E).Activity} (hc : c.calls[i]? = some call) {r : Except Error (Response τ)}
    (hr : call.proc.result = some r) :
    Mints call.request (call.request.onBoundary, call.hist) r := by
  have hout := Machine.finished (P := discipline E) (Q := fun q m r => Mints q m r ∧ True)
    body_disciplined (fun _ _ _ _ _ _ => trivial) hrun (List.mem_of_getElem? hc) hr
  rw [Machine.Activity.mode, after_start] at hout
  exact hout.1

omit [Add τ] [FloatText τ] in
theorem boundary_of_resolve {q : Request E} {self : Nat} {a notes : String}
    {decision : OperatorDecision} {operator : OperatorIdentity} {answers : Dict String String}
    (hq : q.onBoundary = .resolveByOperator self a decision operator notes answers) :
    q = .boundary (.resolveByOperator self a decision operator notes answers) := by
  cases q with
  | boundary q => exact congrArg Request.boundary hq
  | _ => cases hq

/-- A decision verifier accepted that the action of the row `r` is allowed once, for an operator
whose identity was authenticated. -/
def ProofAccepted (c : Calls E) (r : Row τ) : Prop :=
  ∃ call ∈ c.calls, ∃ self operator notes answers req,
    call.request = .boundary
      (.resolveByOperator self r.actionId .allowOnce operator notes answers) ∧
    ⟨.verifyOperator self operator, .ok true⟩ ∈ call.hist ∧
    ⟨.verifyDecision self req .allowOnce operator, .ok true⟩ ∈ call.hist ∧
    req.context = r.context

theorem proofAccepted_of_covered {births : List (Context τ)} {r : Row τ}
    (ht : Traced births c.state (records c)) (hc : Covered (records c) r.context) :
    ProofAccepted c r := by
  obtain ⟨m, hm, req, hp, ha, hctx⟩ := hc
  obtain ⟨call, hcall, rfl⟩ := List.mem_map.mp hm
  rw [Machine.Activity.mode, after_start] at hp ha
  obtain ⟨self, a, operator, notes, answers, hq, hv⟩ := hp
  obtain ⟨self', a', operator', notes', answers', hq', hv', hg⟩ := ha
  obtain ⟨rfl, rfl, -, rfl, rfl, rfl⟩ := OperatorBoundary.Request.resolveByOperator.inj
    (hq.symm.trans hq')
  obtain ⟨j, hj⟩ := List.mem_iff_getElem?.mp hcall
  have hgot := (ht.memory.calls _ (List.mem_of_getElem? (records_call hj))).got self a req hg
  have hra : r.actionId = a := (congrArg Context.actionId hctx).symm.trans hgot
  subst hra
  exact ⟨call, hcall, self, operator, notes, answers, req, boundary_of_resolve hq, hv', hv, hctx⟩

/-- What is behind a ticket for the action `a`: its row, as it was before its call consumed it. -/
structure Backed (c₁ : Calls E) (a workerId taskId : String) (command : List String)
    (workspacePath : String) (h : History τ) (r : Row τ) : Prop where
  row : c₁.state.row a = some r
  approved : r.state = .approved
  bound : r.actionBoundVerified = true
  accepted : ProofAccepted c₁ r
  sameSession : r.sessionId = workerId
  sameTask : r.taskId = taskId
  sameCommand : loadList r.commandJson = some command
  sameWorkspace : ∃ path, ⟨.resolvePath r.workspacePath, .ok path⟩ ∈ h ∧
    ⟨.resolvePath workspacePath, .ok path⟩ ∈ h

theorem proven_of_consumable {births : List (Context τ)} (ht : Traced births c.state (records c))
    {r : Row τ} {a n : String} {now : τ} (hrow : c.state.row a = some r)
    (hcons : r.consumable a n true now) {req : OperatorApprovalRequest τ}
    (hreq : req.context ∈ births) (hnonce : n = req.nonce) :
    r.actionBoundVerified = true ∧ ProofAccepted c r ∧ r.context = req.context := by
  have hbound : r.actionBoundVerified = true := by
    simp only [Row.consumable, Bool.and_eq_true] at hcons
    simpa using hcons.1.2
  have hcovered := ht.proven r (row_some hrow).1 hbound (.inl (consumable_state hcons).1)
  refine ⟨hbound, proofAccepted_of_covered ht hcovered, ?_⟩
  obtain ⟨m, -, req', -, -, hctx'⟩ := hcovered
  have hmem := context_of_known (ht.known r (row_some hrow).1)
    (congrArg Context.commandJson hctx'.symm)
  exact List.inj_on_of_nodup_map ht.memory.nonces hmem hreq
    ((consumable_ids hcons).2.trans hnonce)

theorem performs_mint (hsha : Function.Injective E.sha256)
    (hrun : Library.Run (Step E) (start E table) ls c) {call : (machine E).Activity}
    (hc : c.calls[i]? = some call) {authority : VerifiedOperatorApprovalAuthority E}
    {a workerId taskId workspacePath sessionSecret : String} {command : List String} {ttl : τ}
    (hq : call.request = .issueExecutionTicket authority a workerId taskId command workspacePath
      sessionSecret ttl) (hcons : Consumed call.hist) :
    ∃ ls₁ w ls₂ c₁ c₂ r, ls = ls₁ ++ .act i w :: ls₂ ∧
      Library.Run (Step E) (start E table) ls₁ c₁ ∧ Step E c₁ (.act i w) = some c₂ ∧
      Library.Run (Step E) c₂ ls₂ c ∧
      Backed c₁ a workerId taskId command workspacePath call.hist r ∧
      c₂.state.row a = some { r with state := .consumed } := by
  obtain ⟨a', n, bound, now, hcons⟩ := hcons
  obtain ⟨h, h', hh⟩ := List.append_of_mem hcons
  obtain ⟨ls₁, w, c₁, c₂, hper⟩ := Machine.performs_of_hist hrun hc hh
  obtain ⟨ls₂, hls, h₂⟩ := hper.split
  obtain ⟨k, hact⟩ := hper.acts
  obtain ⟨births, ht⟩ := traced_run hper.before
  have hmem := List.mem_of_getElem? (records_call hact.call)
  obtain ⟨ha, hp⟩ := acts_disciplined hper.before hact
  rw [hq] at ha hp
  obtain ⟨_, _, _, _, _, _, _, req, ⟨⟩, hv, rfl, rfl⟩ := ha
  obtain rfl : bound = true := (hp _ _ _ _ _ _ _ rfl).trans authority.verifies
  obtain rfl : req.actionId = a := (ht.memory.calls _ hmem).got _ _ _ hv.snapshot
  obtain ⟨r, hrow, hr, hrow'⟩ := consumed_row ht.keys hper.answer
  have hseen := (ht.memory.calls _ hmem).seen req (seen_of_get hv.snapshot)
  obtain ⟨hbound, haccepted, hctx⟩ := proven_of_consumable ht hrow hr hseen rfl
  simp only [Row.context, OperatorApprovalRequest.context, Context.mk.injEq] at hctx
  obtain ⟨-, hsession, htask, hcommand, hpath, -⟩ := hctx
  obtain ⟨stored, passed, hstored, hpassed, hdigest⟩ := hv.digest
  obtain ⟨hcommand', rfl, -⟩ := commandText_injective (hsha hdigest)
  have hsub : ∀ e ∈ h, e ∈ call.hist := fun e he => hh ▸ List.mem_append_left _ he
  refine ⟨ls₁, w, ls₂, c₁, c₂, r, hls, hper.before, hact.isStep, h₂, ?_, ?_⟩
  · exact {
      row := hrow
      approved := (consumable_state hr).1
      bound := hbound
      accepted := haccepted
      sameSession := hsession.trans hv.session
      sameTask := htask.trans hv.task
      sameCommand := by rw [hcommand, loadList_dumpList, hcommand']
      sameWorkspace := ⟨stored, hsub _ (hpath ▸ hstored), hsub _ hpassed⟩ }
  · rw [hact.result]
    exact hrow'

variable (E) in
/-- The challenge for a request whose workspace resolves to `path`. -/
def challenge (path : String) (req : OperatorApprovalRequest τ) (decision : OperatorDecision) :
    String :=
  E.sha256 (challengeText (E.sha256 (commandText req.command path req.taskId)) req decision)

omit [Add τ] in
theorem challenge_injective (hsha : Function.Injective E.sha256) {path path' : String}
    {req req' : OperatorApprovalRequest τ} {decision decision' : OperatorDecision}
    (h : challenge E path req decision = challenge E path' req' decision') :
    decision = decision' ∧ path = path' ∧ req.context = req'.context := by
  obtain ⟨hdigest, hd, h₁, h₂, h₃, h₄, h₅, h₆, h₇⟩ := challengeText_injective (hsha h)
  obtain ⟨hcommand, hpath, -⟩ := commandText_injective (hsha hdigest)
  refine ⟨hd, hpath, ?_⟩
  simp only [OperatorApprovalRequest.context, hcommand, h₁, h₂, h₃, h₄, h₅, h₆, h₇]

/-- A ticket is minted only by consuming a row for which a decision verifier had accepted this
very action, and a challenge is about one action, command, workspace and decision only. -/
theorem ticket_proven (hsha : Function.Injective E.sha256)
    (hrun : Library.Run (Step E) (start E table) ls c) :
    (∀ (i : Nat) call authority a workerId taskId command workspacePath sessionSecret ttl granted
      reason ticket, c.calls[i]? = some call →
      call.request = .issueExecutionTicket authority a workerId taskId command workspacePath
        sessionSecret ttl →
      call.proc.result = some (.ok (.answer (granted, reason, some ticket))) →
      (∃ now, ticket = executionTicket E a workerId taskId
        (computeActionResource E command workspacePath taskId) sessionSecret (now + ttl)) ∧
      ∃ ls₁ w ls₂ c₁ c₂ r, ls = ls₁ ++ .act i w :: ls₂ ∧
        Library.Run (Step E) (start E table) ls₁ c₁ ∧ Step E c₁ (.act i w) = some c₂ ∧
        Library.Run (Step E) c₂ ls₂ c ∧
        Backed c₁ a workerId taskId command workspacePath call.hist r ∧
        c₂.state.row a = some { r with state := .consumed }) ∧
    ∀ path path' (req req' : OperatorApprovalRequest τ) decision decision',
      challenge E path req decision = challenge E path' req' decision' →
        decision = decision' ∧ path = path' ∧ req.context = req'.context := by
  refine ⟨?_, fun _ _ _ _ _ _ h => challenge_injective hsha h⟩
  intro i call authority a workerId taskId command workspacePath sessionSecret ttl granted reason
    ticket hc hq hr
  have hmint := minted_call hrun hc hr
  rw [hq] at hmint
  obtain ⟨hcons, now, -, hticket⟩ := hmint
  exact ⟨⟨now, hticket⟩, performs_mint hsha hrun hc hq hcons⟩

end Runs

/-! ## A ticket that is minted -/

section Sample

def proofEnv : Env Int where
  conf self := { raceEnv.conf self with decisionVerifier := self = 0 }
  sha256 s := "0123456789abcdef" ++ s
  hmac := raceEnv.hmac
  repr := raceEnv.repr
  fixed3 := raceEnv.fixed3

def proofAuthority : VerifiedOperatorApprovalAuthority proofEnv := ⟨0, rfl⟩

def emptyTable : LegacyTable Int := ⟨[], .nil, .nil, by simp⟩

def proofStart (q : Request proofEnv) : (machine proofEnv).Label := .start q

def proofActs (i n : Nat) (time : Int) : List (machine proofEnv).Label :=
  List.replicate n (.act i ⟨time, "n", "/w", some true, false⟩)

def proofIssue : Request proofEnv :=
  .issueExecutionTicket proofAuthority "act_0123456789abcdef" "w" "t" ["ls"] "/w"
    "0123456789abcdef0123456789abcdef" 60

/-- The authority asks, an operator proves the decision, the authority mints the ticket. -/
def proofRun : List (machine proofEnv).Label :=
  proofStart (.requestCommandApproval proofAuthority "w" "t" ["ls"] "/w") :: proofActs 0 6 0 ++
  proofStart (.boundary (.resolveByOperator 0 "act_0123456789abcdef" .allowOnce raceOperator ""
    [])) :: proofActs 1 7 1 ++
  proofStart proofIssue :: proofActs 2 9 2

def proofEnd : Option (Request proofEnv × Option (Except Error (Response Int))) :=
  some (proofIssue, some (.ok (.answer (true, "APPROVED_BY_VERIFIED_OPERATOR",
    some (executionTicket proofEnv "act_0123456789abcdef" "w" "t"
      (computeActionResource proofEnv ["ls"] "/w" "t") "0123456789abcdef0123456789abcdef" 62)))))

theorem proof_runs : ∃ c, Library.Run (Step proofEnv) (start proofEnv emptyTable) proofRun c ∧
    c.calls[2]?.map (fun call => (call.request, call.proc.result)) = proofEnd := by
  have h : (Library.exec (Step proofEnv) (start proofEnv emptyTable) proofRun).any (fun c =>
      c.calls[2]?.map (fun call => (call.request, call.proc.result)) = proofEnd) = true := by
    decide +kernel
  obtain ⟨c, hrun, hc⟩ := run_of_any h
  exact ⟨c, hrun, of_decide_eq_true hc⟩

theorem ticket_proven_sample : ∃ (c c₁ : Calls proofEnv) (call : (machine proofEnv).Activity)
    (r : Row Int), c.calls[2]? = some call ∧ call.request = proofIssue ∧
      Backed c₁ "act_0123456789abcdef" "w" "t" ["ls"] "/w" call.hist r := by
  have hsha : Function.Injective proofEnv.sha256 := fun x y h => by simpa [proofEnv] using h
  obtain ⟨c, hrun, hcalls⟩ := proof_runs
  obtain ⟨call, hc, hcall⟩ := Option.map_eq_some_iff.mp hcalls
  obtain ⟨hq, hr⟩ := Prod.mk.inj hcall
  obtain ⟨-, _, _, _, c₁, _, r, -, -, -, -, hb, -⟩ :=
    (ticket_proven hsha hrun).1 2 call _ _ _ _ _ _ _ _ _ _ _ hc hq hr
  exact ⟨c, c₁, call, r, hc, hq, hb⟩

end Sample

end SubagentBridge.VerifiedOperatorAuthority
