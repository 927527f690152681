import SubagentBridge.Recovery.TerminalStatus

/-! Handoffs: accepted once, as a whole, and for good. -/

namespace SubagentBridge.Supervisor

open Library Domain TeamStore

variable {F : Type} {B : Builtins F}

def HandsOver (o : Op F) : Prop :=
  o.reads = true ∨ ∃ teamId evidence status workerId,
    o = .finalizeHandoff teamId evidence status workerId

theorem finalizeHandoffTransaction_only (teamId : String) (evidence : HandoffEvidence F)
    (status : Option QueueTaskStatus) :
    (finalizeHandoffTransaction B teamId evidence status).Only HandsOver := by
  simp only [finalizeHandoffTransaction, Proc.bind_eq]
  refine Proc.only_op_bind (.inl rfl) fun found => ?_
  cases found with
  | none => trivial
  | some p =>
    refine Proc.Only.bind (by simp) fun _ => Proc.only_op_bind (.inl rfl) fun finalized => ?_
    refine Proc.Only.bind (by simp) fun _ => ?_
    exact (Proc.only_op (S := sig F) (A := HandsOver) _).mpr (.inr ⟨_, _, _, _, rfl⟩)

section Submission

variable [FloatText F] [FloatInt F]

theorem submitWorkerHandoff_only (evidence : HandoffEvidence F) (verify : Bool) :
    (submitWorkerHandoff B evidence verify).Only HandsOver := by
  simp only [submitWorkerHandoff, Proc.bind_eq]
  refine Proc.only_op_bind (.inl rfl) fun found => ?_
  cases found with
  | none => trivial
  | some item =>
    refine Proc.Only.bind (by simp) fun _ => Proc.only_op_bind (.inl rfl) fun session => ?_
    cases session with
    | none => trivial
    | some worker =>
      refine Proc.Only.bind (by simp) fun _ => Proc.only_op_bind (.inl rfl) fun team => ?_
      refine Proc.Only.bind (by simp) fun _ => Proc.only_op_bind (.inl rfl) fun existing => ?_
      refine Proc.Only.bind (by simp) fun _ => Proc.Only.bind (by simp) fun _ => ?_
      refine Proc.Only.bind (Proc.only_when ?_) fun _ => Proc.Only.bind (by simp) fun _ => ?_
      · exact (checkArtifacts_looks evidence worker).mono fun _ ho => .inl ho.2
      · exact (finalizeHandoffTransaction_only ..).bind fun _ => trivial

end Submission

def SameRows (db db' : Db F) : Prop :=
  db'.handoffs = db.handoffs ∧ db'.queue = db.queue ∧ db'.sessions = db.sessions

structure HandedIn (d : String) (status : Option QueueTaskStatus) (db : Db F) : Prop where
  handoff : ∃ teamId evidence, db.handoffs.get? d = some (teamId, evidence) ∧
    evidence.dispatchId = d
  row : ∃ row, db.queue.get? d = some row ∧ (∀ st ∈ status, row.status = st) ∧
    ∀ session, db.sessions.get? row.toSessionId = some session → session.status = .idle

section Steps

variable {repr : String → String} {w : World F} {db db' : Db F} {o : Op F} {d : String}

theorem idle_finalize {teamId workerId : String} {evidence : HandoffEvidence F}
    {status : Option QueueTaskStatus} {session : AgentSession F}
    (h : db.finalizeHandoff repr teamId evidence status workerId w.time = .ok ((), db'))
    (hs : db'.sessions.get? workerId = some session) : session.status = .idle := by
  unfold Db.finalizeHandoff at h
  split at h
  · cases h
  obtain rfl := (Prod.mk.inj (Except.ok.inj h)).2
  cases hold : db.sessions.get? workerId with
  | none =>
    simp only [hold] at hs
    cases hs
  | some row =>
    simp only [hold, Dict.get?_set, if_true] at hs
    rw [← Option.some.inj hs]

theorem handedIn_finalize {teamId workerId : String} {evidence : HandoffEvidence F}
    {status : Option QueueTaskStatus} {row : QueueRow F}
    (h : db.finalizeHandoff repr teamId evidence status workerId w.time = .ok ((), db'))
    (hrow : db.queue.get? evidence.dispatchId = some row) (hw : row.toSessionId = workerId) :
    HandedIn evidence.dispatchId status db' := by
  have hidle : ∀ session, db'.sessions.get? workerId = some session → session.status = .idle :=
    fun _ => idle_finalize h
  unfold Db.finalizeHandoff at h
  split at h
  · cases h
  obtain rfl := (Prod.mk.inj (Except.ok.inj h)).2
  refine ⟨⟨teamId, evidence, (Dict.get?_set ..).trans (if_pos rfl), rfl⟩, ?_⟩
  cases status with
  | none => exact ⟨row, hrow, by simp, hw ▸ hidle⟩
  | some status =>
    refine ⟨{ row with status, updatedAt := w.time }, ?_, by simp, hw ▸ hidle⟩
    simp only [hrow]
    exact (Dict.get?_set ..).trans (if_pos rfl)

variable [FloatText F] [LinearOrder F]

theorem reads_exec (ho : o.reads = true) : (exec repr o w db).2 = db := by
  rw [exec]
  split
  · rfl
  · cases o <;> first | rfl | cases ho

theorem handoff_kept {p : String × HandoffEvidence F} (hp : db.handoffs.get? d = some p) :
    (exec repr o w db).2.handoffs.get? d = some p := by
  rcases handoffs_exec repr o w db with hsame | ⟨teamId, evidence, _, _, -, hnew, hset⟩
  · rwa [hsame]
  · rw [hset, Dict.get?_set]
    split
    next hd => cases (hd ▸ hnew).symm.trans hp
    next => exact hp

theorem accepted_new (h : accepted d ⟨o, (exec repr o w db).1⟩) : db.handoffs.get? d = none := by
  obtain ⟨teamId, evidence, status, workerId, rfl, he⟩ := h
  obtain ⟨rfl, hans⟩ := Event.mk.inj he
  rcases finalize_exec repr teamId evidence status workerId w db with ⟨e, h⟩ | ⟨hnew, -⟩
  · rw [h] at hans
    cases hans
  · exact hnew

end Steps

section Once

variable {db : Db F} {d : String} {ms : List (Request F × History F)} {q : Request F}
variable {h : History F} {i : Nat} {o : Op F}

def AcceptedBy (d : String) (ms : List (Request F × History F)) (i : Nat) : Prop :=
  ∃ m, ms[i]? = some m ∧ ∃ e ∈ m.2, accepted d e

theorem AcceptedBy.done (ha : AcceptedBy d ms i) : Done (accepted d) ms :=
  let ⟨m, hm, he⟩ := ha
  ⟨m, List.mem_of_getElem? hm, he⟩

structure AcceptedOnce (d : String) (db : Db F) (ms : List (Request F × History F)) : Prop where
  recorded : Done (accepted d) ms → (db.handoffs.get? d).isSome = true
  unique : ∀ i j, AcceptedBy d ms i → AcceptedBy d ms j → i = j

theorem acceptedOnce_nil : AcceptedOnce d db [] where
  recorded h := absurd h not_done_nil
  unique i j h := by
    obtain ⟨m, hm, -⟩ := h
    cases hm

theorem AcceptedOnce.start (ho : AcceptedOnce d db ms) (q : Request F) :
    AcceptedOnce d db (ms ++ [(q, [])]) := by
  have old : ∀ i, AcceptedBy d (ms ++ [(q, [])]) i → AcceptedBy d ms i := by
    rintro i ⟨m, hm, e, he, hacc⟩
    rw [List.getElem?_append] at hm
    split at hm
    · exact ⟨m, hm, e, he, hacc⟩
    · obtain rfl := List.mem_singleton.mp (List.mem_of_getElem? hm)
      cases he
  exact ⟨fun h => ho.recorded ((done_start q).mp h),
    fun i j hi hj => ho.unique i j (old i hi) (old j hj)⟩

variable [FloatText F] [LinearOrder F] {repr : String → String} {w : World F}

theorem AcceptedOnce.act (ho : AcceptedOnce d db ms) (hi : ms[i]? = some (q, h)) :
    AcceptedOnce d (exec repr o w db).2 (ms.set i (q, h ++ [⟨o, (exec repr o w db).1⟩])) := by
  have back : ∀ j, AcceptedBy d (ms.set i (q, h ++ [⟨o, (exec repr o w db).1⟩])) j →
      AcceptedBy d ms j ∨ j = i ∧ accepted d ⟨o, (exec repr o w db).1⟩ := by
    rintro j ⟨m, hm, e, he, hacc⟩
    by_cases hij : i = j
    · subst hij
      rw [List.getElem?_set_self (List.getElem?_eq_some_iff.mp hi).1] at hm
      obtain rfl := Option.some.inj hm
      rcases List.mem_append.mp he with he | he
      · exact .inl ⟨_, hi, e, he, hacc⟩
      · exact .inr ⟨rfl, List.mem_singleton.mp he ▸ hacc⟩
    · rw [List.getElem?_set_ne hij] at hm
      exact .inl ⟨m, hm, e, he, hacc⟩
  have fresh : accepted d ⟨o, (exec repr o w db).1⟩ → ∀ j, ¬ AcceptedBy d ms j := by
    intro hacc j hj
    have hsome := ho.recorded hj.done
    rw [accepted_new hacc] at hsome
    cases hsome
  refine ⟨fun hd => ?_, fun j j' hj hj' => ?_⟩
  · rcases (done_set hi _).mp hd with hd | hacc
    · exact handoff_exec (ho.recorded hd)
    · exact accepted_exec hacc
  · rcases back j hj with old | ⟨hj, hacc⟩ <;> rcases back j' hj' with old' | ⟨hj', hacc'⟩
    · exact ho.unique j j' old old'
    · exact absurd old (fresh hacc' j)
    · exact absurd old' (fresh hacc j')
    · exact hj.trans hj'.symm

end Once

section Runs

variable [LinearOrder F] [FloatText F] [FloatInt F] {s₀ : Db F} {c c' c₁ c₂ : Calls B}
variable {ls ls₁ ls₂ : List (supervisors B).Label} {i : Nat} {w : World F} {q : Request F}
variable {o : Op F} {k : Except Error o.Ret → Call F (Response F)} {h : History F}

omit [LinearOrder F] in
theorem body_only (q : Request F) : (body B q).Only fun o =>
    ∀ evidence verify, q = .submitWorkerHandoff evidence verify → HandsOver o := by
  cases q with
  | submitWorkerHandoff evidence verify =>
    have honly := submitWorkerHandoff_only (B := B) evidence verify
    have hbody :=
      Proc.Only.bind (f := fun reply => .ret (Response.reply reply)) honly fun _ => trivial
    exact hbody.mono fun _ ho _ _ _ => ho
  | _ => exact Proc.only_of_forall (fun _ _ _ hq => by cases hq) _

theorem submit_act (hk : Keyed s₀) (hrun : Run (Step B) (start B s₀) ls c)
    (hact : Machine.Acts c i w c' q o k h) {evidence : HandoffEvidence F} {verify : Bool}
    (hq : q = .submitWorkerHandoff evidence verify) :
    SameRows c.state c'.state ∧ ¬ accepted evidence.dispatchId ⟨o, (exec B.repr o w c.state).1⟩ ∨
      HandedIn evidence.dispatchId (handoffStatus evidence) c'.state ∧
        accepted evidence.dispatchId ⟨o, (exec B.repr o w c.state).1⟩ := by
  have same : ∀ {db : Db F}, SameRows db db := ⟨rfl, rfl, rfl⟩
  rw [hact.result]
  rcases hact.only body_only hrun evidence verify hq with ho | ⟨teamId, evidence',
    status, workerId, rfl⟩
  · refine .inl ⟨?_, fun ⟨_, _, _, _, _, he⟩ => ?_⟩
    · change SameRows c.state (exec B.repr o w c.state).2
      rw [reads_exec ho]
      exact same
    · rw [(Event.mk.inj he).1] at ho
      cases ho
  have ha := acts_allowed hk hrun hact
  obtain ⟨evidence₁, verify₁, seen, hq', hd, rfl, hsel, -⟩ := ha
  obtain ⟨rfl, -⟩ := Request.submitWorkerHandoff.inj (hq.symm.trans hq')
  rcases finalize_exec B.repr teamId evidence' (handoffStatus evidence) workerId w c.state with
    ⟨e, he⟩ | ⟨-, db', hf, he⟩
  · refine .inl ⟨?_, fun ⟨_, _, _, _, _, hev⟩ => ?_⟩
    · change SameRows c.state (exec B.repr _ w c.state).2
      rw [he]
      exact same
    · rw [he] at hev
      cases hev
  · obtain ⟨x, ⟨row, hrow, rfl⟩, hw⟩ := (tracked_run hk hrun).workers _
      (List.mem_of_getElem? (records_call hact.call)) _ workerId ⟨seen, hsel⟩
    refine .inr ⟨?_, teamId, evidence', handoffStatus evidence, workerId, hd, ?_⟩
    · change HandedIn _ _ (exec B.repr _ w c.state).2
      rw [he, ← hd]
      exact handedIn_finalize hf hrow hw
    · rw [he]

theorem acceptedOnce_run (hk : Keyed s₀) (hrun : Run (Step B) (start B s₀) ls c) (d : String) :
    AcceptedOnce d c.state (records c) := by
  refine run_invariant hk acceptedOnce_nil (fun db ms q ho => ho.start q) ?_ hrun
  intro c i w c' q o k h _ _ hact ho _
  exact ho.act (records_call hact.call)

theorem acceptedBy_of_reports (hk : Keyed s₀) (hrun : Run (Step B) (start B s₀) ls c) {d : String}
    {call : (supervisors B).Activity} (hc : c.calls[i]? = some call)
    (hr : reportsAccepted d call = true) : AcceptedBy d (records c) i := by
  refine ⟨_, records_call hc, ?_⟩
  unfold reportsAccepted at hr
  split at hr
  next evidence verify r hq hres =>
    obtain rfl := of_decide_eq_true hr
    have hout := outcome_call hk hrun hc hres
    rw [hq] at hout
    obtain ⟨teamId, evidence', workerId, hd, he⟩ := hout
    exact ⟨_, he, teamId, evidence', _, workerId, hd, rfl⟩
  next => cases hr

theorem handoff_kept_run {d : String} {p : String × HandoffEvidence F}
    (h₂ : Run (Step B) c₁ ls₂ c₂) (hp : c₁.state.handoffs.get? d = some p) :
    c₂.state.handoffs.get? d = some p := by
  refine h₂.invariant (I := fun c => c.state.handoffs.get? d = some p) hp ?_
  rintro c (q | ⟨i, w⟩) c' hp - hs
  · rw [Machine.step_start hs]
    exact hp
  · obtain ⟨q, o, k, h, hact⟩ := Machine.step_act hs
    rw [hact.result]
    exact handoff_kept hp

theorem sameRows_of_raises (hk : Keyed s₀) (h₁ : Run (Step B) (start B s₀) ls₁ c₁)
    (hs : Step B c₁ (.act i w) = some c) (h₂ : Run (Step B) c ls₂ c₂)
    {call : (supervisors B).Activity} (hc : c₂.calls[i]? = some call)
    {evidence : HandoffEvidence F} {verify : Bool} {e : Error}
    (hq : call.request = .submitWorkerHandoff evidence verify)
    (hr : call.proc.result = some (.error e)) : SameRows c₁.state c.state := by
  obtain ⟨q, o, k, h, hact⟩ := Machine.step_act hs
  obtain ⟨hq', hmem⟩ := hact.recorded h₂ hc
  have hrun := (h₁.trans (.single trivial hs)).trans h₂
  have hout := outcome_call hk hrun hc hr
  rw [hq] at hout
  rcases submit_act hk h₁ hact (hq'.symm.trans hq) with ⟨hsame, -⟩ | ⟨-, hacc⟩
  · exact hsame
  · obtain ⟨teamId, evidence', status, workerId, -, hev⟩ := hacc
    exact absurd (hev ▸ hmem) (hout teamId evidence' status workerId)

/-- A dispatch is handed over once at most, and for good.  A step of a handoff commits the handoff,
the status and the idle worker together or changes nothing, and a handoff that raises changes
nothing. -/
theorem handoff_exactly_once (hk : Keyed s₀) (h₁ : Run (Step B) (start B s₀) ls₁ c₁) (d : String) :
    (∀ (i j : Nat) call call', c₁.calls[i]? = some call → c₁.calls[j]? = some call' →
      reportsAccepted d call = true → reportsAccepted d call' = true → i = j) ∧
    (∀ call ∈ c₁.calls, reportsAccepted d call = true →
      (c₁.state.handoffs.get? d).isSome = true) ∧
    (∀ p ls₂ c₂, c₁.state.handoffs.get? d = some p → Run (Step B) c₁ ls₂ c₂ →
      c₂.state.handoffs.get? d = some p) ∧
    ∀ (i : Nat) w c evidence verify, Step B c₁ (.act i w) = some c →
      c₁.calls[i]?.map (·.request) = some (.submitWorkerHandoff evidence verify) →
      (SameRows c₁.state c.state ∨
        HandedIn evidence.dispatchId (handoffStatus evidence) c.state) ∧
      ∀ ls₂ c₂ e, Run (Step B) c ls₂ c₂ →
        (c₂.calls[i]?.bind (·.proc.result)) = some (.error e) → SameRows c₁.state c.state := by
  have hone := acceptedOnce_run hk h₁ d
  refine ⟨fun i j call call' hc hc' hr hr' => hone.unique i j (acceptedBy_of_reports hk h₁ hc hr)
    (acceptedBy_of_reports hk h₁ hc' hr'), fun call hc hr => ?_,
    fun p ls₂ c₂ hp h₂ => handoff_kept_run h₂ hp, ?_⟩
  · obtain ⟨i, hc⟩ := List.getElem?_of_mem hc
    exact hone.recorded (acceptedBy_of_reports hk h₁ hc hr).done
  intro i w c evidence verify hs hq
  obtain ⟨q, o, k, h, hact⟩ := Machine.step_act hs
  rw [hact.call] at hq
  have hq : q = .submitWorkerHandoff evidence verify := Option.some.inj hq
  refine ⟨(submit_act hk h₁ hact hq).imp And.left And.left, fun ls₂ c₂ e h₂ hr => ?_⟩
  obtain ⟨call, hc, hres⟩ := Option.bind_eq_some_iff.mp hr
  exact sameRows_of_raises hk h₁ hs h₂ hc ((hact.recorded h₂ hc).1.trans hq) hres

def submissionRace : List SampleLabel :=
  ask (.submitWorkerHandoff (sampleEvidence "d" "FAILED") true) ::
    ask (.submitWorkerHandoff (sampleEvidence "d" "FAILED") true) ::
    (acts 0 6 1 ++ acts 1 6 1 ++ acts 1 1 2 ++ acts 0 1 3)

theorem handoff_exactly_once_race : ∃ c : Calls sampleBuiltins,
    c.calls[1]?.any (reportsAccepted "d") = true ∧
    (c.calls[0]?.bind (·.proc.result)).any (fun r => !r.toBool) = true ∧
    (c.state.handoffs.get? "d").isSome = true ∧
    ∀ (i j : Nat) call call', c.calls[i]? = some call → c.calls[j]? = some call' →
      reportsAccepted "d" call = true → reportsAccepted "d" call' = true → i = j := by
  have h : (Library.exec (Step sampleBuiltins)
      (start sampleBuiltins (sampleDb [sampleItem "d" .running none])) submissionRace).any
      (fun c => c.calls[1]?.any (reportsAccepted "d") &&
        (c.calls[0]?.bind (·.proc.result)).any (fun r => !r.toBool)) = true := by
    decide +kernel
  obtain ⟨c, hrun, hc⟩ := run_of_any h
  obtain ⟨haccepted, hraised⟩ := Bool.and_eq_true_iff.mp hc
  have hk := keyed_sampleDb [sampleItem "d" .running none] (by decide)
  obtain ⟨honce, hrecorded, -⟩ := handoff_exactly_once hk hrun "d"
  obtain ⟨call, hcall, hr⟩ := (Option.any_eq_true _ _).mp haccepted
  exact ⟨c, haccepted, hraised, hrecorded call (List.mem_of_getElem? hcall) hr, honce⟩

end Runs

end SubagentBridge.Supervisor
