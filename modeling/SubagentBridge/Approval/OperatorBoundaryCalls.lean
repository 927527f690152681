import SubagentBridge.Approval.OperatorBoundaryRuns

/-! Which operations the calls on a boundary perform besides the one that decides: a discipline
on deciding has to look at `resolveRequest` only. -/

namespace SubagentBridge.OperatorBoundary

open Library

section Harmless

variable {τ : Type} [LinearOrder τ] {q : Request τ} {h : History τ} {self : Nat} {now : τ}
variable {req expected : OperatorApprovalRequest τ}

def Harmless : Op τ → Prop
  | .updateRow req _ => req.state = .expired
  | .consumeRow _ _ _ _ => False
  | _ => True

def Silent : Op τ → Prop
  | .updateRow req _ => req.state = .expired
  | .consumeRow _ _ _ _ | .appendEvent _ _ _ _ => False
  | _ => True

omit [LinearOrder τ] in
theorem Silent.harmless {o : Op τ} (ho : Silent o) : Harmless o := by
  cases o with
  | updateRow => exact ho
  | consumeRow | appendEvent => exact ho.elim
  | _ => trivial

omit [LinearOrder τ] in
theorem harmless_of_silent {α : Type} {p : Call τ α} (hp : p.Only Silent) : p.Only Harmless :=
  hp.mono fun _ => Silent.harmless

theorem rehydrateRow_silent (r : Row τ) : (rehydrateRow self now r).Only Silent := by
  rw [rehydrateRow]
  refine Proc.Only.bind (Proc.only_ofExcept _) fun req => ?_
  refine Proc.only_op_bind trivial fun _ => ?_
  split
  · exact (Proc.only_op _).mpr trivial
  · trivial

theorem rehydrateFromDisk_silent : (rehydrateFromDisk self : Call τ Nat).Only Silent := by
  rw [rehydrateFromDisk]
  refine Proc.only_op_bind trivial fun now => ?_
  refine Proc.only_op_bind trivial fun rows => ?_
  exact (Proc.only_forEach (fun r => rehydrateRow_silent r) rows).bind fun _ => trivial

omit [LinearOrder τ] in
theorem insertRequest_silent : (insertRequest req).Only Silent := by
  refine Proc.Only.tryCatch ((Proc.only_op _).mpr trivial) fun e => ?_
  cases e <;> trivial

theorem swapRequest_only {A : Op τ → Prop} (ha : A (.updateRow req expected)) :
    (swapRequest req expected).Only A := by
  rw [swapRequest]
  split
  · trivial
  split
  · trivial
  · exact Proc.only_op_bind ha fun _ => Proc.only_require ..

theorem expireIfDue_silent : (expireIfDue self req now).Only Silent := by
  rw [expireIfDue]
  split
  · trivial
  refine Proc.Only.bind (Proc.Only.tryCatch (Proc.Only.bind ?_ fun _ => trivial) fun e => ?_)
    fun persisted => ?_
  · exact swapRequest_only rfl
  · cases e <;> trivial
  · split
    · exact Proc.only_op_bind trivial fun _ => trivial
    · refine rehydrateFromDisk_silent.bind fun _ => ?_
      exact Proc.only_op_bind trivial fun _ => trivial

theorem getRequest_silent {actionId : String} :
    (getRequest self actionId : Call τ _).Only Silent := by
  rw [getRequest]
  refine Proc.only_op_bind trivial fun found => ?_
  cases found with
  | none => trivial
  | some req =>
    exact Proc.only_op_bind trivial fun now => expireIfDue_silent.bind fun _ => trivial

theorem listPendingFrom_silent (reqs : List (OperatorApprovalRequest τ)) :
    (listPendingFrom self now reqs).Only Silent := by
  induction reqs with
  | nil => trivial
  | cons req reqs ih => exact expireIfDue_silent.bind fun _ => ih.bind fun _ => trivial

theorem listPending_silent : (listPending self : Call τ _).Only Silent := by
  rw [listPending]
  refine Proc.only_op_bind trivial fun now => ?_
  exact Proc.only_op_bind trivial fun reqs => listPendingFrom_silent reqs

variable [NatCast τ] (E : Env τ)

def Consuming (self : Nat) (o : Op τ) : Prop :=
  Harmless o ∨ ∃ actionId nonce now,
    o = .consumeRow actionId nonce (E.conf self).decisionVerifier now

variable {E}

theorem appendEvent_harmless (key kind : String)
    (payload : List (Option String × AuditLedger.Value τ)) :
    (appendEvent E self key kind payload).Only Harmless := by
  rw [appendEvent]
  split
  · trivial
  · exact (Proc.only_op _).mpr trivial

omit [LinearOrder τ] [NatCast τ] in
theorem demand_silent {verdict : Call τ Bool} {failed refused : String}
    (hv : verdict.Only Silent) : (demand verdict failed refused).Only Silent :=
  Proc.Only.bind (Proc.Only.tryCatch hv fun _ => trivial) fun _ => Proc.only_require ..

theorem demandProof_silent (decision : OperatorDecision) (operator : OperatorIdentity) :
    (demandProof E self req decision operator).Only Silent := by
  rw [demandProof]
  split
  · exact demand_silent ((Proc.only_op _).mpr trivial)
  · trivial

theorem canonicalCommandDigest_silent (command : List String) (path taskId : String) :
    (canonicalCommandDigest E command path taskId).Only Silent :=
  Proc.only_op_bind trivial fun _ => trivial

theorem createRequest_harmless [Add τ] (sessionId taskId : String) (command : List String)
    (workspacePath : String) (questions : List String) (ttlSeconds : Option τ) :
    (createRequest E self sessionId taskId command workspacePath questions ttlSeconds).Only
      Harmless := by
  simp only [createRequest, Proc.bind_eq]
  split
  · trivial
  split
  · trivial
  refine Proc.only_op_bind trivial fun now => ?_
  refine Proc.only_op_bind trivial fun nonce => ?_
  refine (harmless_of_silent (canonicalCommandDigest_silent ..)).bind fun digest => ?_
  refine Proc.only_op_bind trivial fun path => ?_
  refine Proc.only_op_bind trivial fun _ => ?_
  refine (harmless_of_silent insertRequest_silent).bind fun _ => ?_
  exact (appendEvent_harmless ..).bind fun _ => trivial

section Consume

variable {actionId sessionId taskId workspacePath : String} {command : List String} {ttl : τ}

theorem issueTicket_harmless {digest : String} {expiry : τ} :
    (issueTicket E self req actionId sessionId taskId digest expiry).Only Harmless := by
  simp only [issueTicket, Proc.bind_eq]
  refine Proc.only_op_bind trivial fun _ => ?_
  refine Proc.only_op_bind trivial fun _ => ?_
  exact (appendEvent_harmless ..).bind fun _ => trivial

theorem consumeRow_consuming : (consumeRow E self req now).Only (Consuming E self) := by
  refine Proc.Only.tryCatch (Proc.Only.bind ?_ fun _ => trivial) fun _ => trivial
  exact (Proc.only_op _).mpr (.inr ⟨_, _, _, rfl⟩)

variable [Add τ]

theorem consumeApproved_consuming :
    (consumeApproved E self req actionId sessionId taskId command workspacePath ttl now).Only
      (Consuming E self) := by
  simp only [consumeApproved, Proc.bind_eq]
  refine Proc.only_op_bind (.inl trivial) fun used => ?_
  split
  · trivial
  split
  · trivial
  split
  · trivial
  refine ((canonicalCommandDigest_silent ..).mono fun _ ho => .inl ho.harmless).bind
    fun expected => ?_
  refine ((canonicalCommandDigest_silent ..).mono fun _ ho => .inl ho.harmless).bind
    fun actual => ?_
  split
  · trivial
  refine consumeRow_consuming.bind fun n => ?_
  cases n with
  | none => trivial
  | some rowcount =>
    dsimp only
    split
    · trivial
    · exact issueTicket_harmless.mono fun _ => .inl

theorem consumeForExecution_consuming :
    (consumeForExecution E self actionId sessionId taskId command workspacePath ttl).Only
      (Consuming E self) := by
  simp only [consumeForExecution, Proc.bind_eq]
  split
  · trivial
  refine Proc.only_op_bind (.inl trivial) fun now => ?_
  refine Proc.only_op_bind (.inl trivial) fun found => ?_
  cases found with
  | none => trivial
  | some req =>
    dsimp only
    split
    · exact (expireIfDue_silent.mono fun _ ho => .inl ho.harmless).bind fun _ => trivial
    repeat' split
    all_goals first | trivial | exact consumeApproved_consuming

end Consume

end Harmless

/-! ## Disciplines on deciding -/

section Deciding

variable {τ : Type} [LinearOrder τ] [NatCast τ] {E : Env τ} {q : Request τ} {h : History τ}
variable {B : Request τ → History τ → Op τ → Prop} {α β : Type}

variable (B) in
/-- Whatever the answers are, the call performs operations that `B` allows, and learns from them. -/
abbrev Keeps (p : Call τ α) (q : Request τ) (h : History τ) : Prop :=
  p.Follows (.ofHistory B fun _ _ => True) (fun _ _ => True) (q, h)

omit [LinearOrder τ] [NatCast τ] in
theorem harmless_bind (hB : ∀ q h o, Harmless o → B q h o) {p : Call τ α} {f : α → Call τ β}
    (hp : p.Only Harmless) (hf : ∀ h' a, h <+: h' → Keeps B (f a) q h') :
    Keeps B (p.bind f) q h := by
  refine (hp.follows_history fun _ _ _ => hB _ _ _).bind ?_ fun _ _ _ => trivial
  rintro ⟨q', h'⟩ a ⟨rfl, hh⟩
  exact hf h' a hh

omit [LinearOrder τ] [NatCast τ] in
theorem keeps_bind {p : Call τ α} {f : α → Call τ β} (hp : Keeps B p q h)
    (hf : ∀ m a, (f a).Follows (.ofHistory B fun _ _ => True) (fun _ _ => True) m) :
    Keeps B (p.bind f) q h :=
  hp.bind (fun m a _ => hf m a) fun _ _ _ => trivial

theorem consume_keeps [Add τ] {self : Nat} {actionId sessionId taskId workspacePath : String}
    {command : List String} {ttl : τ} (hB : ∀ h o, Consuming E self o → B q h o) :
    Keeps B (consumeForExecution E self actionId sessionId taskId command workspacePath ttl) q h :=
  (consumeForExecution_consuming.follows_history fun _ _ _ => hB _ _).mono fun _ _ _ => trivial

theorem resolveByOperator_keeps {self : Nat} {actionId notes : String}
    {decision : OperatorDecision} {operator : OperatorIdentity} {answers : Dict String String}
    (hB : ∀ q h o, Harmless o → B q h o)
    (hresolve : ∀ h req, ⟨.getRequest self actionId, .ok (some req)⟩ ∈ h →
      Keeps B (resolveRequest E self actionId req decision operator notes answers) q h) :
    Keeps B (resolveByOperator E self actionId decision operator notes answers) q h := by
  simp only [resolveByOperator, Proc.bind_eq]
  refine harmless_bind hB (Proc.only_require ..) fun h₁ _ _ => ?_
  refine harmless_bind hB (harmless_of_silent (demand_silent ((Proc.only_op _).mpr trivial)))
    fun h₂ _ _ => ?_
  refine harmless_bind hB (Proc.only_require ..) fun h₃ _ _ => ?_
  refine harmless_bind hB ((Proc.only_op _).mpr trivial) fun h₄ now _ => ?_
  refine (Proc.follows_op_bind ..).mpr ⟨hB _ _ _ trivial, fun found _ => ?_, fun _ _ => trivial⟩
  cases found with
  | none => trivial
  | some req =>
    dsimp only
    split
    · exact harmless_bind hB (harmless_of_silent expireIfDue_silent) fun _ _ _ => trivial
    split
    · trivial
    refine harmless_bind hB ((Proc.only_op _).mpr trivial) fun h₆ used hh => ?_
    refine harmless_bind hB (Proc.only_require ..) fun h₇ _ hh' => ?_
    exact hresolve h₇ req ((hh.trans hh').subset (by simp))

theorem body_keeps [Add τ] (hB : ∀ q h o, Harmless o → B q h o)
    (hconsume : ∀ self actionId sessionId taskId command workspacePath ttl h o,
      Consuming E self o →
        B (.consumeForExecution self actionId sessionId taskId command workspacePath ttl) h o)
    (hresolve : ∀ self actionId decision operator notes answers h req,
      ⟨.getRequest self actionId, .ok (some req)⟩ ∈ h →
        Keeps B (resolveRequest E self actionId req decision operator notes answers)
          (.resolveByOperator self actionId decision operator notes answers) h) (q : Request τ) :
    Keeps B (body E q) q [] := by
  cases q with
  | createRequest => exact harmless_bind hB (createRequest_harmless ..) fun _ _ _ => trivial
  | resolveByOperator =>
    exact keeps_bind (resolveByOperator_keeps hB fun h req => hresolve _ _ _ _ _ _ h req)
      fun _ _ => trivial
  | consumeForExecution =>
    exact keeps_bind (consume_keeps fun h o => hconsume _ _ _ _ _ _ _ h o) fun _ _ => trivial
  | rehydrateFromDisk =>
    exact harmless_bind hB (harmless_of_silent rehydrateFromDisk_silent) fun _ _ _ => trivial
  | getRequest => exact harmless_bind hB (harmless_of_silent getRequest_silent) fun _ _ _ => trivial
  | listPending =>
    exact harmless_bind hB (harmless_of_silent listPending_silent) fun _ _ _ => trivial

end Deciding

end SubagentBridge.OperatorBoundary
