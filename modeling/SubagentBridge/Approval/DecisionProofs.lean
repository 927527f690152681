import SubagentBridge.Approval.OperatorBoundaryCalls

/-! Where the provenance bit of a row comes from: only a resolution whose decision verifier
accepted the very request sets it together with `APPROVED`, and a boundary that verifies
decisions consumes no row without it. -/

namespace SubagentBridge.OperatorBoundary

open Library

/-! ## What the digests are taken of -/

section Texts

variable {τ : Type}

theorem commandText_injective {command command' : List String} {path path' taskId taskId' : String}
    (h : commandText command path taskId = commandText command' path' taskId') :
    command = command' ∧ path = path' ∧ taskId = taskId' := by
  have hw : ∀ (command : List String) (path taskId : String), (Json.obj [("command",
      .ofStrings command), ("workspace_path", .str path), ("task_id", .str taskId)] :
      Json Empty).Wf := by
    intro command path taskId
    exact ⟨by simp [Dict.keys], wf_ofStrings _, trivial, trivial, trivial⟩
  have hget := get?_of_print .default (hw _ _ _) (hw _ _ _) (String.ofList_injective h)
  refine ⟨?_, ?_, ?_⟩
  · have hcommand : (Json.ofStrings command : Json Empty) = .ofStrings command' := by
      simpa [Dict.get?_cons, sortKeys_ofStrings] using hget "command"
    exact ofStrings_injective hcommand
  · simpa [Dict.get?_cons, Json.sortKeys] using hget "workspace_path"
  · simpa [Dict.get?_cons, Json.sortKeys] using hget "task_id"

theorem value_injective {d d' : OperatorDecision} (h : d.value = d'.value) : d = d' := by
  cases d <;> cases d' <;> first | rfl | exact absurd h (by decide)

theorem challengeText_injective [FloatText τ] {digest digest' : String}
    {req req' : OperatorApprovalRequest τ} {d d' : OperatorDecision}
    (h : challengeText digest req d = challengeText digest' req' d') :
    digest = digest' ∧ d = d' ∧ req.actionId = req'.actionId ∧ req.sessionId = req'.sessionId ∧
      req.taskId = req'.taskId ∧ req.nonce = req'.nonce ∧
      req.workspacePath = req'.workspacePath ∧ req.createdAt = req'.createdAt ∧
      req.expiresAt = req'.expiresAt := by
  have hw : ∀ (digest : String) (req : OperatorApprovalRequest τ) (d : OperatorDecision),
      (Json.obj [("domain", .str "SIMPUL_OPERATOR_APPROVAL_V1"),
        ("action_id", .str req.actionId), ("session_id", .str req.sessionId),
        ("task_id", .str req.taskId), ("nonce", .str req.nonce),
        ("command_digest", .str digest), ("workspace_path", .str req.workspacePath),
        ("created_at", .float req.createdAt), ("expires_at", .float req.expiresAt),
        ("decision", .str d.value)] : Json τ).Wf := by
    intro digest req d
    exact ⟨by simp [Dict.keys], by simp [WfMembers, Json.Wf]⟩
  have hget := get?_of_print ⟨false, true⟩ (hw _ _ _) (hw _ _ _) (String.ofList_injective h)
  refine ⟨?_, value_injective ?_, ?_, ?_, ?_, ?_, ?_, ?_, ?_⟩
  · simpa [Dict.get?_cons, Json.sortKeys] using hget "command_digest"
  · simpa [Dict.get?_cons, Json.sortKeys] using hget "decision"
  · simpa [Dict.get?_cons, Json.sortKeys] using hget "action_id"
  · simpa [Dict.get?_cons, Json.sortKeys] using hget "session_id"
  · simpa [Dict.get?_cons, Json.sortKeys] using hget "task_id"
  · simpa [Dict.get?_cons, Json.sortKeys] using hget "nonce"
  · simpa [Dict.get?_cons, Json.sortKeys] using hget "workspace_path"
  · simpa [Dict.get?_cons, Json.sortKeys] using hget "created_at"
  · simpa [Dict.get?_cons, Json.sortKeys] using hget "expires_at"

end Texts

/-! ## Who sets the bit -/

section Discipline

variable {τ : Type} [LinearOrder τ] {q : Request τ} {h : History τ} {self : Nat}
variable {req : OperatorApprovalRequest τ}

/-- The call resolves an action for good, and the decision verifier of its boundary accepted
`ALLOW_ONCE` for the request `req`. -/
def ProvenFor (q : Request τ) (h : History τ) (req : OperatorApprovalRequest τ) : Prop :=
  ∃ self actionId operator notes answers,
    q = .resolveByOperator self actionId .allowOnce operator notes answers ∧
    ⟨.verifyDecision self req .allowOnce operator, .ok true⟩ ∈ h

variable [NatCast τ] (E : Env τ)

/-- A row is approved with the bit only after the proof, and a boundary that verifies decisions
asks for the bit when it consumes. -/
def Proven (q : Request τ) (h : History τ) : Op τ → Prop
  | .updateRow req expected => req.state = .approved → req.actionBoundVerified = true →
      ProvenFor q h expected
  | .consumeRow _ _ bound _ => ∀ self actionId sessionId taskId command workspacePath ttl,
      q = .consumeForExecution self actionId sessionId taskId command workspacePath ttl →
        bound = (E.conf self).decisionVerifier
  | _ => True

abbrev proofs : Protocol (sig τ) Error := .ofHistory (Proven E) fun _ _ => True

variable {E}

theorem proven_of_harmless (q : Request τ) (h : History τ) (o : Op τ) (ho : Harmless o) :
    Proven E q h o := by
  cases o with
  | updateRow req expected => exact fun hst => by cases (show req.state = _ from ho).symm.trans hst
  | consumeRow => exact ho.elim
  | _ => trivial

theorem proven_of_consuming {actionId sessionId taskId workspacePath : String}
    {command : List String} {ttl : τ} {o : Op τ} (ho : Consuming E self o) :
    Proven E (.consumeForExecution self actionId sessionId taskId command
      workspacePath ttl) h o := by
  rcases ho with ho | ⟨a, n, now, rfl⟩
  · exact proven_of_harmless _ _ _ ho
  · rintro _ _ _ _ _ _ _ ⟨⟩
    rfl

section Resolve

variable {actionId notes : String} {decision : OperatorDecision} {operator : OperatorIdentity}
variable {answers : Dict String String}

theorem demandProof_proven :
    (demandProof E self req decision operator).Follows (proofs E) (fun m r => m.1 = q ∧
      (r = .ok () → (E.conf self).decisionVerifier = true →
        ⟨.verifyDecision self req decision operator, .ok true⟩ ∈ m.2)) (q, h) := by
  rw [demandProof]
  split
  next =>
    refine Proc.Follows.bind (M := fun m r => m.1 = q ∧ (r = .ok true →
      ⟨.verifyDecision self req decision operator, .ok true⟩ ∈ m.2)) ?_ ?_ ?_
    · refine Proc.Follows.tryCatch (M := fun m r => m.1 = q ∧ (r = .ok true →
        ⟨.verifyDecision self req decision operator, .ok true⟩ ∈ m.2)) ?_ (fun _ _ hm => hm) ?_
      · refine ⟨trivial, ?_⟩
        rintro (e | a) -
        · exact ⟨rfl, by rintro ⟨⟩⟩
        · refine ⟨rfl, fun ha => ?_⟩
          obtain rfl := Except.ok.inj ha
          exact List.mem_append_right _ (List.mem_singleton.mpr rfl)
      · rintro m e ⟨hq, -⟩
        exact ⟨hq, by rintro ⟨⟩⟩
    · rintro m verified ⟨hq, hm⟩
      cases verified with
      | false => exact ⟨hq, by rintro ⟨⟩⟩
      | true => exact ⟨hq, fun _ _ => hm rfl⟩
    · rintro m e ⟨hq, -⟩
      exact ⟨hq, by rintro ⟨⟩⟩
  next hno => exact ⟨rfl, fun _ hv => (hno hv).elim⟩

theorem resolveRequest_proven :
    Keeps (Proven E) (resolveRequest E self actionId req decision operator notes answers)
      (.resolveByOperator self actionId decision operator notes answers) h := by
  simp only [resolveRequest, persistRequest, Proc.bind_eq]
  refine demandProof_proven.bind ?_ fun _ _ _ => trivial
  rintro ⟨q', h'⟩ _ ⟨rfl, hproof⟩
  refine harmless_bind proven_of_harmless (appendEvent_harmless ..) fun h₁ _ hh => ?_
  refine keeps_bind ?_ fun m _ => ?_
  · refine ((swapRequest_only rfl).follows_history ?_).mono fun _ _ _ => trivial
    rintro h₂ hh₂ o rfl hst hb
    cases decision with
    | deny => cases hst
    | answerQuestions => cases hst
    | allowOnce =>
      exact ⟨self, actionId, operator, notes, answers, rfl, (hh.trans hh₂).subset (hproof rfl hb)⟩
  · exact harmless_bind proven_of_harmless ((Proc.only_op _).mpr trivial) fun _ _ _ => trivial

end Resolve

theorem body_proven [Add τ] (q : Request τ) : Keeps (Proven E) (body E q) q [] :=
  body_keeps proven_of_harmless (fun _ _ _ _ _ _ _ _ _ => proven_of_consuming)
    (fun _ _ _ _ _ _ _ _ _ => resolveRequest_proven) q

end Discipline

/-! ## What the table knows -/

section Traced

variable {τ : Type}

def State.forget (s : State τ) : State τ := { s with rows := [] }

def Row.Known (births : List (Context τ)) (r : Row τ) : Prop :=
  ∀ command, loadList r.commandJson = some command →
    { r.context with commandJson := dumpList command } ∈ births

variable [LinearOrder τ]

/-- Some call had an authenticated operator allow the request of the context once, and the
decision verifier accept that. -/
def Covered (ms : List (Request τ × History τ)) (ctx : Context τ) : Prop :=
  ∃ m ∈ ms, ∃ req : OperatorApprovalRequest τ, ProvenFor m.1 m.2 req ∧ Accepted m.1 m.2 req ∧
    req.context = ctx

/-- Memory is sound as it is over an empty table; the rows are known, whatever text they hold;
and a row that was approved with the bit is covered by a proof. -/
structure Traced (births : List (Context τ)) (s : State τ) (ms : List (Request τ × History τ)) :
    Prop where
  memory : Sound births s.forget ms
  known : ∀ r ∈ s.rows, r.Known births
  keys : (s.rows.map (·.actionId)).Nodup
  proven : ∀ r ∈ s.rows, r.actionBoundVerified = true →
    r.state = .approved ∨ r.state = .consumed → Covered ms r.context

variable {births births' : List (Context τ)} {s : State τ} {ms : List (Request τ × History τ)}
variable {q : Request τ} {h : History τ} {i : Nat} {o : Op τ} {ans : Except Error o.Ret}
variable {r : Row τ} {req expected : OperatorApprovalRequest τ} {ctx : Context τ}

omit [LinearOrder τ] in
theorem known_toRow (hreq : req.context ∈ births) : req.toRow.Known births := by
  intro command hload
  rw [show req.toRow.commandJson = dumpList req.command from rfl, loadList_dumpList] at hload
  obtain rfl := Option.some.inj hload
  exact hreq

omit [LinearOrder τ] in
theorem context_of_known (hk : r.Known births) {command : List String}
    (hc : r.commandJson = dumpList command) : r.context ∈ births := by
  have hmem := hk command (by rw [hc, loadList_dumpList])
  rwa [← hc] at hmem

omit [LinearOrder τ] in
theorem commandJson_of_matches (h : r.matchesSnapshot expected) :
    r.commandJson = dumpList expected.command := by
  simp only [Row.matchesSnapshot, Bool.and_eq_true, decide_eq_true_eq] at h
  tauto

omit [LinearOrder τ] in
theorem ProvenFor.mono {h' : History τ} (hp : ProvenFor q h req) (hh : h <+: h') :
    ProvenFor q h' req := by
  obtain ⟨self, actionId, operator, notes, answers, hq, hv⟩ := hp
  exact ⟨self, actionId, operator, notes, answers, hq, hh.subset hv⟩

omit [LinearOrder τ] in
theorem accepted_mono {h' : History τ} (ha : Accepted q h req) (hh : h <+: h') :
    Accepted q h' req := by
  obtain ⟨self, actionId, operator, notes, answers, hq, hv, hg⟩ := ha
  exact ⟨self, actionId, operator, notes, answers, hq, hh.subset hv, hh.subset hg⟩

omit [LinearOrder τ] in
theorem Covered.start (hc : Covered ms ctx) (q : Request τ) : Covered (ms ++ [(q, [])]) ctx := by
  obtain ⟨m, hm, req, hreq⟩ := hc
  exact ⟨m, List.mem_append_left _ hm, req, hreq⟩

omit [LinearOrder τ] in
theorem Covered.snoc (hc : Covered ms ctx) (hi : ms[i]? = some (q, h)) (e : Event (sig τ) Error) :
    Covered (ms.set i (q, h ++ [e])) ctx := by
  obtain ⟨m, hm, req, hp, ha, hctx⟩ := hc
  obtain ⟨j, hj⟩ := List.mem_iff_getElem?.mp hm
  by_cases hij : i = j
  · subst hij
    obtain rfl := Option.some.inj (hj.symm.trans hi)
    have hh : h <+: h ++ [e] := List.prefix_append ..
    refine ⟨(q, h ++ [e]), ?_, req, hp.mono hh, accepted_mono ha hh, hctx⟩
    exact List.mem_of_getElem? (List.getElem?_set_self (List.getElem?_eq_some_iff.mp hi).1)
  · exact ⟨m, List.mem_of_getElem? ((List.getElem?_set_ne hij).trans hj), req, hp, ha, hctx⟩

theorem Traced.start (ht : Traced births s ms) (q : Request τ) :
    Traced births s (ms ++ [(q, [])]) where
  memory := ht.memory.start q
  known := ht.known
  keys := ht.keys
  proven r hr hb hst := (ht.proven r hr hb hst).start q

omit [LinearOrder τ] in
theorem known_of_context {r' : Row τ} (hk : r.Known births) (hctx : r'.context = r.context) :
    r'.Known births := by
  intro command hload
  rw [show r'.commandJson = r.commandJson from congrArg Context.commandJson hctx] at hload
  rw [hctx]
  exact hk command hload

theorem known_load {now : τ} (hk : r.Known births) (hl : r.load now = .ok req) :
    req.context ∈ births := by
  rw [Row.load, bind_ok] at hl
  obtain ⟨command, hcommand, hl⟩ := hl
  rw [bind_ok] at hl
  obtain ⟨questions, -, hl⟩ := hl
  rw [bind_ok] at hl
  obtain ⟨answers, -, hl⟩ := hl
  obtain rfl := Except.ok.inj hl
  refine hk command ?_
  cases hc : loadList r.commandJson with
  | none => rw [hc] at hcommand; cases hcommand
  | some command' => rw [hc] at hcommand; cases hcommand; rfl

theorem Traced.matched (ht : Traced births s ms) (he : expected.context ∈ births)
    (hr : r ∈ s.rows) (hm : r.matchesSnapshot expected) : r.context = expected.context := by
  have hctx := context_of_known (ht.known r hr) (commandJson_of_matches hm)
  exact List.inj_on_of_nodup_map ht.memory.nonces hctx he (nonce_of_matches hm)

theorem Traced.aside {s' : State τ} (ht : Traced births s ms) (hi : ms[i]? = some (q, h))
    {e : Event (sig τ) Error} (hm : Sound births' s'.forget (ms.set i (q, h ++ [e])))
    (hsub : births ⊆ births') (hrows : s'.rows = s.rows) :
    Traced births' s' (ms.set i (q, h ++ [e])) where
  memory := hm
  known r hr command hload := hsub (ht.known r (hrows ▸ hr) command hload)
  keys := hrows ▸ ht.keys
  proven r hr hb hst := (ht.proven r (hrows ▸ hr) hb hst).snoc hi e

theorem Traced.mapRows (ht : Traced births s ms) {f : Row τ → Row τ}
    {e : Event (sig τ) Error} (hm : Sound births s.forget (ms.set i (q, h ++ [e])))
    (hctx : ∀ r, (f r).context = r.context)
    (hf : ∀ r ∈ s.rows, (f r).actionBoundVerified = true →
      (f r).state = .approved ∨ (f r).state = .consumed →
      Covered (ms.set i (q, h ++ [e])) r.context) :
    Traced births { s with rows := s.rows.map f } (ms.set i (q, h ++ [e])) where
  memory := hm
  known r hr := by
    obtain ⟨r₀, hr₀, rfl⟩ := List.mem_map.mp hr
    exact known_of_context (ht.known r₀ hr₀) (hctx r₀)
  keys := by
    have hkey : (s.rows.map f).map (·.actionId) = s.rows.map (·.actionId) := by
      rw [List.map_map]
      exact List.map_congr_left fun r _ => congrArg Context.actionId (hctx r)
    exact hkey ▸ ht.keys
  proven r hr hb hst := by
    obtain ⟨r₀, hr₀, rfl⟩ := List.mem_map.mp hr
    rw [hctx]
    exact hf r₀ hr₀ hb hst

theorem Traced.insertRow (ht : Traced births s ms) (hi : ms[i]? = some (q, h))
    (hreq : req.context ∈ births) (hst : req.state = .blocked) {e : Event (sig τ) Error}
    (hm : Sound births s.forget (ms.set i (q, h ++ [e]))) :
    Traced births (s.insertRow req).2 (ms.set i (q, h ++ [e])) := by
  rw [State.insertRow]
  split
  next => exact ht.aside hi hm (List.Subset.refl _) rfl
  next hnew =>
    refine ⟨hm, fun r hr => ?_, ?_, fun r hr hb hr' => ?_⟩
    · rcases List.mem_append.mp hr with hr | hr
      · exact ht.known r hr
      · rw [List.mem_singleton.mp hr]
        exact known_toRow hreq
    · rw [List.map_append, List.nodup_append]
      refine ⟨ht.keys, by simp, ?_⟩
      intro x hx y hy hxy
      obtain ⟨r, hr, rfl⟩ := List.mem_map.mp hx
      rw [List.map_singleton, List.mem_singleton] at hy
      exact hnew ⟨r, hr, .inl (hxy.trans hy)⟩
    · rcases List.mem_append.mp hr with hr | hr
      · exact (ht.proven r hr hb hr').snoc hi e
      · rw [List.mem_singleton.mp hr, OperatorApprovalRequest.toRow, hst] at hr'
        rcases hr' with hr' | hr' <;> cases hr'

theorem consumed_notMem_permitted (x : ApprovalState) : .consumed ∉ permitted x := by
  cases x <;> decide

variable [NatCast τ] {E : Env τ}

theorem Traced.updateRow (ht : Traced births s ms) (hi : ms[i]? = some (q, h))
    (ha : Allowed E q h (.updateRow req expected)) (hp : Proven E q h (.updateRow req expected))
    {e : Event (sig τ) Error} (hm : Sound births s.forget (ms.set i (q, h ++ [e]))) :
    Traced births (s.updateRow req expected).2 (ms.set i (q, h ++ [e])) := by
  have he := (ht.memory.calls _ (List.mem_of_getElem? hi)).seen _ ha.1
  refine ht.mapRows hm (fun r => by split <;> rfl) fun r hr hb hst => ?_
  split at hb
  next hmatch =>
    rw [if_pos hmatch] at hst
    have hctx := ht.matched he hr hmatch
    have happroved : req.state = .approved :=
      hst.resolve_right fun (hc : req.state = .consumed) =>
        consumed_notMem_permitted _ (hc ▸ ha.2.2.1)
    have hh : h <+: h ++ [e] := List.prefix_append ..
    refine ⟨(q, h ++ [e]), ?_, expected, (hp happroved hb).mono hh,
      accepted_mono (ha.2.2.2 happroved) hh, hctx.symm⟩
    exact List.mem_of_getElem? (List.getElem?_set_self (List.getElem?_eq_some_iff.mp hi).1)
  next hmatch =>
    rw [if_neg hmatch] at hst
    exact (ht.proven r hr hb hst).snoc hi e

omit [NatCast τ] in
theorem Traced.consumeRow (ht : Traced births s ms) (hi : ms[i]? = some (q, h)) {a n : String}
    {bound : Bool} {now : τ} {e : Event (sig τ) Error}
    (hm : Sound births s.forget (ms.set i (q, h ++ [e]))) :
    Traced births (s.consumeRow a n bound now).2 (ms.set i (q, h ++ [e])) := by
  refine ht.mapRows hm (fun r => by split <;> rfl) fun r hr hb hst => ?_
  split at hb
  next hc => exact (ht.proven r hr hb (.inl (consumable_state hc).1)).snoc hi e
  next hc =>
    rw [if_neg hc] at hst
    exact (ht.proven r hr hb hst).snoc hi e

theorem traced_exec [FloatText τ] (ht : Traced births s ms) (hi : ms[i]? = some (q, h))
    (ha : Allowed E q h o) (hp : Proven E q h o) {w : World τ} (hw : possible o w s = true) :
    ∃ births', Traced births' (exec E o w s).2 (ms.set i (q, h ++ [⟨o, (exec E o w s).1⟩])) := by
  have hc := ht.memory.calls _ (List.mem_of_getElem? hi)
  have hs := ht.memory
  have hrefl := List.Subset.refl births
  rw [exec]
  split
  next e _ _ =>
    refine ⟨births, ht.aside hi ?_ hrefl rfl⟩
    exact hs.silent hi rfl rfl rfl (fun _ => not_shows_error) (by rintro _ ⟨⟩)
  next =>
    cases o with
    | now | resolvePath _ | verifyOperator _ _ | verifyDecision _ _ _ _ | nonceConsumed _ _
    | addConsumed _ _ | appendEvent _ _ _ _ =>
      refine ⟨births, ht.aside hi ?_ hrefl rfl⟩
      exact hs.silent hi rfl rfl rfl (fun _ => id) (by rintro _ ⟨⟩)
    | tokenHex =>
      have hnew : w.token ∉ s.forget.minted := by simpa [possible, State.forget] using hw
      exact ⟨births, ht.aside hi (hs.token hi hnew) hrefl rfl⟩
    | getRequest self a =>
      have hmem : ∀ req, (s.requests self).get? a = some req →
          req.context ∈ births ∧ req.actionId = a :=
        fun req hreq => hs.memory self _ (Dict.mem_of_get? hreq)
      refine ⟨births, ht.aside hi ?_ hrefl rfl⟩
      refine hs.quiet hi rfl rfl rfl (fun req hreq => (hmem req hreq).1) ?_ ?_
      · rintro _ _ req he
        injection he with ho hr
        cases ho
        exact (hmem req (Except.ok.inj hr)).2
      · rintro _ ⟨⟩
    | allRequests self =>
      refine ⟨births, ht.aside hi ?_ hrefl rfl⟩
      refine hs.quiet hi rfl rfl rfl (fun req hreq => ?_) ?_ ?_
      · obtain ⟨p, hp, rfl⟩ := List.mem_map.mp hreq
        exact (hs.memory self p hp).1
      · rintro _ _ _ ⟨⟩
      · rintro _ ⟨⟩
    | putRequest self req =>
      rcases ha with ⟨seen, hseen, hctx⟩ | ⟨hd, hb⟩
      · exact ⟨births, ht.aside hi (hs.putRequest hi (hctx ▸ hc.seen seen hseen)) hrefl rfl⟩
      · exact ⟨_, ht.aside hi (hs.birth hi hd hb) (List.subset_append_left ..) rfl⟩
    | insertRow req =>
      refine ⟨births, ht.insertRow hi (hc.seen req ha.1) ha.2 ?_⟩
      exact hs.silent hi rfl rfl rfl (fun _ => by cases (s.insertRow req).1 <;> exact id)
        (by rintro _ ⟨⟩)
    | updateRow req expected =>
      refine ⟨births, ht.updateRow hi ha hp ?_⟩
      exact hs.silent hi rfl rfl rfl (fun _ => id) (by rintro _ ⟨⟩)
    | consumeRow a n bound now =>
      refine ⟨births, ht.consumeRow hi ?_⟩
      exact hs.silent hi rfl rfl rfl (fun _ => id) (by rintro _ ⟨⟩)
    | selectRows =>
      refine ⟨births, ht.aside hi ?_ hrefl rfl⟩
      refine hs.quiet hi rfl rfl rfl (fun req hreq => ?_) ?_ ?_
      · obtain ⟨r, hr, now, hload⟩ := hreq
        exact known_load (ht.known r hr) hload
      · rintro _ _ _ ⟨⟩
      · rintro _ ⟨⟩

end Traced

end SubagentBridge.OperatorBoundary
